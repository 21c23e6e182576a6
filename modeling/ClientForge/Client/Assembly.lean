import ClientForge.Client.Module
import ClientForge.Config
import ClientForge.Log
import ClientForge.Naming.Style
/-!
# Assembly

From a bound client to the module of a language. The classes and their contents are the same in
every language; only identifiers differ. Assembly fails where two things would get one
identifier.
-/

namespace ClientForge
namespace Assembly

/-- Why a client cannot be assembled. -/
inductive Cause where
  | classClash (name other : String)
  | memberClash (identifier first second : String)
  | parameterClash (first second identifier : String)
  | unboundSlot (name : String)
deriving DecidableEq, Repr

/-- The wording of each cause. -/
def Cause.message : Cause → String
  | .classClash name other =>
    s!"Class name '{name}' is also generated for '" ++ Diagnostic.location other ++ "'"
  | .memberClash identifier first second =>
    s!"'{identifier}' is generated for both '{first}' and '{second}'"
  | .parameterClash first second identifier =>
    s!"Parameters '{first}' and '{second}' both map to '{identifier}'"
  | .unboundSlot name => s!"No parameter for slot '{name}'"

/-- A cause with the node that it was found at. -/
structure Failure where
  path : KeyPath
  cause : Cause
deriving DecidableEq, Repr

/-- The report of a failure. -/
def Failure.diagnostic (f : Failure) : Diagnostic :=
  { kind := .duplicateName, message := f.cause.message, path := f.path.dotted }

/-- The argument for a parameter. -/
def argumentOf (style : Naming.Style) (p : Parameter) : Argument :=
  ⟨style.identifier p.name, p.name, p.type, p.origin, p.default⟩

/-- The arguments for parameters after those found before; no identifier may come twice. -/
def arguments (style : Naming.Style) (found : List Argument) :
    List Parameter → Except Cause (List Argument)
  | [] => .ok found
  | p :: rest =>
    let argument := argumentOf style p
    match found.find? (·.name = argument.name) with
    | some first => .error (.parameterClash first.wireName p.name argument.name)
    | none => arguments style (found ++ [argument]) rest

/-- The piece for a URL part in a class so deep below the root. -/
def piece (depth : Nat) (list : List Argument) : UrlPart → Except Cause UrlPiece
  | .text s => .ok (.text s)
  | .slot name _ =>
    match list.find? (·.wireName = name) with
    | some argument => .ok (.param argument.name argument.type)
    | none => .error (.unboundSlot name)
  | .base _ => .ok (.base depth)

/-- The pieces for URL parts. -/
def pieces (depth : Nat) (list : List Argument) : List UrlPart → Except Cause (List UrlPiece)
  | [] => .ok []
  | part :: rest =>
    match piece depth list part with
    | .error cause => .error cause
    | .ok p => (pieces depth list rest).map (p :: ·)

/-- The method for an action of a class so deep below the root. -/
def method (style : Naming.Style) (depth : Nat) (a : Action) : Except Cause Method :=
  match arguments style [] a.parameters with
  | .error cause => .error cause
  | .ok list =>
    (pieces depth list a.url.parts).map fun url =>
      { name := style.identifier a.name
        wireName := a.name
        arguments := list
        call :=
          { method := a.method.name
            url := url
            query := list.filter (·.origin = .query)
            body := list.filter (·.origin = .body) } }

/-- The identifiers of a class that are taken, with the paths of their nodes. -/
abbrev Claims := List (String × String)

/-- The claims with one more identifier. -/
def claim (claims : Claims) (identifier path : String) : Except Cause Claims :=
  match claims.lookup identifier with
  | some first => .error (.memberClash identifier first path)
  | none => .ok (claims ++ [(identifier, path)])

/-- The accessors for nested sets, with the claims they make. -/
def accessors (style : Naming.Style) (rootName : String) (names : List String)
    (claims : Claims) : List ApiSet → Except Failure (List Accessor × Claims)
  | [] => .ok ([], claims)
  | set :: rest =>
    let identifier := style.identifier set.name
    match claim claims identifier set.path.dotted with
    | .error cause => .error ⟨set.path, cause⟩
    | .ok claims =>
      (accessors style rootName names claims rest).map fun (list, claims) =>
        (⟨identifier, Naming.className rootName (names ++ [set.name])⟩ :: list, claims)

/-- The methods for actions, after the claims made before. -/
def methods (style : Naming.Style) (depth : Nat) (claims : Claims) :
    List Action → Except Failure (List Method)
  | [] => .ok []
  | a :: rest =>
    match claim claims (style.identifier a.name) a.path.dotted with
    | .error cause => .error ⟨a.path, cause⟩
    | .ok claims =>
      match method style depth a with
      | .error cause => .error ⟨a.path, cause⟩
      | .ok m => (methods style depth claims rest).map (m :: ·)

/-- The class of an API set, given the classes before it. -/
def classDecl (style : Naming.Style) (rootName : String) (names : List String)
    (constructor : Constructor) (done : List ClassDecl) (set : ApiSet) :
    Except Failure ClassDecl :=
  let name := Naming.className rootName names
  match done.find? (·.name = name) with
  | some other => .error ⟨set.path, .classClash name other.path⟩
  | none =>
    match accessors style rootName names [] set.sets with
    | .error failure => .error failure
    | .ok (list, claims) =>
      (methods style names.length claims set.actions).map fun ms =>
        { name := name, path := set.path.dotted, constructor := constructor, accessors := list,
          methods := ms }

mutual

/-- The classes before, and those of an API set and the sets below it. -/
def classes (style : Naming.Style) (rootName : String) (names : List String)
    (constructor : Constructor) (done : List ClassDecl) :
    ApiSet → Except Failure (List ClassDecl)
  | ⟨name, path, url, sets, actions⟩ =>
    match classDecl style rootName names constructor done ⟨name, path, url, sets, actions⟩ with
    | .error failure => .error failure
    | .ok decl => nestedClasses style rootName names decl.name (done ++ [decl]) sets

/-- The classes before, and those of API sets below one class. -/
def nestedClasses (style : Naming.Style) (rootName : String) (names : List String)
    (parentClass : String) (done : List ClassDecl) :
    List ApiSet → Except Failure (List ClassDecl)
  | [] => .ok done
  | set :: rest =>
    match classes style rootName (names ++ [set.name]) { parentClass := some parentClass } done
      set with
    | .error failure => .error failure
    | .ok done => nestedClasses style rootName names parentClass done rest

end

/-- The constructor of the root class: the base URL, with the literal root URL as default. -/
def rootConstructor (url : Option String) : Constructor :=
  { arguments := [⟨"url", "url", .string, .path, url.map .string⟩] }

/-- The module of a bound client. -/
def assemble (language : Language) (config : Config) (client : Client) :
    Except Failure Module :=
  (classes (Naming.styleOf language) client.className [] (rootConstructor client.url) []
    client.root).map fun list =>
      { language := language, rootClass := client.className, comment := config.comment,
        classes := list }

/-- The log line of an assembled module. -/
def logLine (m : Module) : LogLine :=
  ⟨"xsrc.pipeline.rewriter.rewriter",
    s!"Rewrote {m.rootClass} into {m.classes.length} " ++ m.language.name ++ " classes"⟩

end Assembly
end ClientForge
