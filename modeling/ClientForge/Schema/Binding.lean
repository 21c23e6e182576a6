import ClientForge.ContextTree
import ClientForge.Expression
import ClientForge.Log
import ClientForge.Schema.Name
/-!
# Binding

From a decoded document to a bound client. Nodes are taken in document order; for each one its
keys are checked, its scope is opened, and its attributes are resolved one by one in the scopes
that enclose it. Binding stops at the first fault. What was opened and resolved up to there is
recorded as a list of events, from which the context tree is built.
-/

namespace ClientForge
namespace Schema

/-- What is wrong with a document. -/
inductive Cause where
  | rootNotMapping (type : String)
  | keyNotString (shown : Option String)
  | unknownAttribute (key : String) (allowed : List String)
  | nestedMember (key : String)
  | invalidClassName (shown : Option String)
  | invalidMemberName (name : String)
  | siblingClash (name other : String)
  | setWithoutUrl (name : String)
  | setNotMapping (name type : String)
  | actionNotMapping (name type : String)
  | urlNotString (type : String)
  | rootPlaceholder (name : String)
  | placeholderDefault (name : String)
  | attributeNotUrl (attr : String)
  | methodNotString (type : String)
  | unknownMethod (name : String)
  | slotTypeClash (name : String) (first second : Primitive)
  | paramsNotMapping (type : String)
  | invalidParameterName (shown : Option String)
  | parameterTypeNotString (type : String)
  | originClash (name : String) (first second : Origin)
  | expression (fault : Expression.Fault)
  | typeSpec (fault : TypeSpec.Fault)
  | resolution (fault : Scope.Fault)
deriving DecidableEq, Repr

/-- The wording of each cause, unless it has to show what cannot be shown. -/
def Cause.message? : Cause → Option String
  | .rootNotMapping type => some s!"Schema root must be a mapping, got {type}"
  | .keyNotString shown => shown.map fun key => s!"Keys must be strings, got {key}"
  | .unknownAttribute key allowed =>
    some (s!"Unknown attribute '{key}' (allowed here: " ++ Text.join ", " allowed ++ ")")
  | .nestedMember key => some s!"Actions cannot contain nested members ('{key}')"
  | .invalidClassName shown => shown.map fun name => s!"Invalid client class name {name}"
  | .invalidMemberName name => some s!"Invalid member name '{name}'"
  | .siblingClash name other => some s!"'{name}' clashes with sibling '{other}'"
  | .setWithoutUrl name => some s!"API set '{name}' requires a $url"
  | .setNotMapping name type => some s!"API set '{name}' must be a mapping, got {type}"
  | .actionNotMapping name type => some s!"Action '{name}' must be a mapping, got {type}"
  | .urlNotString type => some s!"$url must be a string, got {type}"
  | .rootPlaceholder name => some s!"Root $url cannot contain placeholder '<{name}>'"
  | .placeholderDefault name => some s!"Path parameter '{name}' cannot declare a default"
  | .attributeNotUrl attr => some s!"Attribute '{attr}' cannot be used inside a URL"
  | .methodNotString type => some s!"$method must be a string, got {type}"
  | .unknownMethod name =>
    some (s!"Unknown HTTP method '{name}' (expected one of: " ++
      Text.join ", " (HttpMethod.all.map HttpMethod.name) ++ ")")
  | .slotTypeClash name first second =>
    some (s!"Path parameter '{name}' appears as both " ++ first.name ++ " and " ++ second.name)
  | .paramsNotMapping type => some s!"Expected a mapping of parameter name to type, got {type}"
  | .invalidParameterName shown => shown.map fun name => s!"Invalid parameter name {name}"
  | .parameterTypeNotString type => some s!"Parameter type must be a string, got {type}"
  | .originClash name first second =>
    some (s!"Parameter '{name}' is declared as both a " ++ first.name ++ " and a " ++
      second.name ++ " parameter")
  | .expression fault => some fault.cause.message
  | .typeSpec fault => some fault.message
  | .resolution fault => some fault.message

/-- The kind of failure that a cause is reported as. -/
def Cause.kind : Cause → Diagnostic.Kind
  | .siblingClash .. => .duplicateName
  | .slotTypeClash .. => .duplicateName
  | .originClash .. => .duplicateName
  | .attributeNotUrl _ => .contextResolution
  | .resolution _ => .contextResolution
  | .expression ⟨.typeSpec _, _⟩ => .typeSpec
  | .expression _ => .expressionSyntax
  | .typeSpec _ => .typeSpec
  | _ => .schemaParse

/-- The column that a cause points at. -/
def Cause.column : Cause → Option Int
  | .expression fault => some fault.position
  | _ => none

/-- A cause with the keys that lead to the faulty entry. -/
structure Failure where
  path : KeyPath
  cause : Cause
deriving DecidableEq, Repr

/-- The report of a failure. There is none if the wording of its cause cannot be made: then the
failure surfaces without its kind and its place. -/
def Failure.diagnostic? (f : Failure) : Option Diagnostic :=
  f.cause.message?.map fun message =>
    { kind := f.cause.kind, message := message, path := f.path.dotted, column := f.cause.column }

/-- A step of binding that leaves a trace. -/
inductive Event where
  /-- A node was entered inside the enclosing scopes, nearest first. -/
  | opened (enclosing : List Scope) (scope : Scope)
  /-- An attribute of the node entered last was resolved. -/
  | assigned (name : String) (value : Attribute)
  /-- A node was finished. -/
  | noted (text : String)
deriving Repr

/-- A computation that may fail, with the events up to its end or its failure. -/
structure Recorded (α : Type) where
  events : List Event
  result : Except Failure α

namespace Recorded

variable {α β : Type}

/-- No events. -/
protected def pure (a : α) : Recorded α :=
  ⟨[], .ok a⟩

/-- The events of both; none of the second if the first fails. -/
protected def bind (x : Recorded α) (f : α → Recorded β) : Recorded β :=
  match x.result with
  | .error failure => ⟨x.events, .error failure⟩
  | .ok a => ⟨x.events ++ (f a).events, (f a).result⟩

instance : Monad Recorded where
  pure := Recorded.pure
  bind := Recorded.bind

/-- A computation without events. -/
def ofExcept (path : KeyPath) : Except Cause α → Recorded α
  | .error cause => ⟨[], .error ⟨path, cause⟩⟩
  | .ok a => ⟨[], .ok a⟩

/-- A failure. -/
def fail (path : KeyPath) (cause : Cause) : Recorded α :=
  ⟨[], .error ⟨path, cause⟩⟩

/-- A single event. -/
def record (event : Event) : Recorded Unit :=
  ⟨[event], .ok ()⟩

end Recorded

/-- The entries of a mapping. -/
abbrev Entries := List (Value × Value)

/-- The attributes of the root. -/
def clientKeys : List String := ["$as", "$url"]

/-- The attributes of an API set. -/
def setKeys : List String := ["$url"]

/-- The attributes of an action. -/
def actionKeys : List String := ["$data", "$method", "$params", "$url"]

/-- The first key that does not belong into a mapping, with its path. -/
def checkKeys (allowed : List String) (members : Bool) (path : KeyPath) :
    Entries → Except Failure Unit
  | [] => .ok ()
  | (.str key, _) :: rest =>
    if SchemaName.isAttributeKey key then
      if allowed.contains key then checkKeys allowed members path rest
      else .error ⟨path ++ [key], .unknownAttribute key allowed⟩
    else if members then checkKeys allowed members path rest
    else .error ⟨path ++ [key], .nestedMember key⟩
  | (key, _) :: _ => .error ⟨path, .keyNotString key.shown?⟩

/-- The name of the client class: the one asked for, else the document's own, else a fixed one. -/
def chooseClassName (asked : Option String) (own : Value) : Value :=
  match asked with
  | some name => if name ≠ "" then .str name else if own.isTruthy then own else .str "XSClient"
  | none => if own.isTruthy then own else .str "XSClient"

/-- A class name that may be used. -/
def readClassName : Value → Except Cause String
  | .str name =>
    if SchemaName.isClassName name then .ok name
    else .error (.invalidClassName (Value.str name).shown?)
  | v => .error (.invalidClassName v.shown?)

/-- The first segment that a root URL may not have. Nothing can be referred to there. -/
def checkRootSegments (scope : Scope) : List Segment → Except Cause Unit
  | [] => .ok ()
  | .literal _ :: rest => checkRootSegments scope rest
  | .placeholder name _ :: _ => .error (.rootPlaceholder name)
  | .reference hops attr :: rest =>
    match Scope.resolve [scope] hops attr with
    | .error fault => .error (.resolution fault)
    | .ok _ => checkRootSegments scope rest

/-- The literal root URL, if the document has one. -/
def readRootUrl (scope : Scope) : Value → Except Cause (Option String)
  | .null => .ok none
  | .str s =>
    match Expression.parse s with
    | .error fault => .error (.expression fault)
    | .ok e => (checkRootSegments scope e.segments).map fun _ => some e.text
  | v => .error (.urlNotString v.typeName)

/-- The parts that segments stand for in a lineage. -/
def expandSegments (lineage : List Scope) : List Segment → Except Cause (List UrlPart)
  | [] => .ok []
  | .literal s :: rest => (expandSegments lineage rest).map (.text s :: ·)
  | .reference hops attr :: rest =>
    match Scope.resolve lineage hops attr with
    | .error fault => .error (.resolution fault)
    | .ok (.url template) => (expandSegments lineage rest).map (template.parts ++ ·)
    | .ok (.value (.str s)) => (expandSegments lineage rest).map (.text s :: ·)
    | .ok _ => .error (.attributeNotUrl attr)
  | .placeholder name spec :: rest =>
    if spec.default.isSome then .error (.placeholderDefault name)
    else (expandSegments lineage rest).map (.slot name spec.primitive :: ·)

/-- The URL that a value stands for in a lineage. -/
def resolveUrl (lineage : List Scope) : Value → Except Cause UrlTemplate
  | .str s =>
    match Expression.parse s with
    | .error fault => .error (.expression fault)
    | .ok e => (expandSegments lineage e.segments).map fun parts => UrlTemplate.normalized ⟨parts⟩
  | v => .error (.urlNotString v.typeName)

/-- The URL of an action that has none of its own. -/
def defaultActionUrl : Value := .str "$\x7b!super\x7d"

/-- The method that a value stands for. -/
def readMethod : Value → Except Cause HttpMethod
  | .str s =>
    match HttpMethod.ofName? s with
    | some method => .ok method
    | none => .error (.unknownMethod s)
  | v => .error (.methodNotString v.typeName)

/-- The path parameters of slots, each once, in order of first appearance. -/
def collectPathParams (found : List Parameter) :
    List (String × Primitive) → Except Cause (List Parameter)
  | [] => .ok found
  | (name, type) :: rest =>
    match found.find? (·.name = name) with
    | none => collectPathParams (found ++ [⟨name, type, .path, none⟩]) rest
    | some first =>
      if first.type = type then collectPathParams found rest
      else .error (.slotTypeClash name first.type type)

/-- The type spec of a declared parameter. -/
def readParameterType : Value → Except Cause TypeSpec
  | .null => .ok {}
  | .str s =>
    match TypeSpec.parse s with
    | .error fault => .error (.typeSpec fault)
    | .ok spec => .ok spec
  | v => .error (.parameterTypeNotString v.typeName)

/-- A declared parameter. -/
def readParameter (origin : Origin) (key value : Value) : Except Cause Parameter :=
  match key with
  | .str name =>
    if SchemaName.hasWordChar name then
      (readParameterType value).map fun spec => ⟨name, spec.primitive, origin, spec.default⟩
    else .error (.invalidParameterName key.shown?)
  | _ => .error (.invalidParameterName key.shown?)

/-- The declared parameters of entries. A name without a text adds nothing to the path. -/
def readParameters (origin : Origin) (path : KeyPath) :
    Entries → Except Failure (List Parameter)
  | [] => .ok []
  | (key, value) :: rest =>
    match readParameter origin key value with
    | .error cause => .error ⟨path ++ key.text?.toList, cause⟩
    | .ok parameter => (readParameters origin path rest).map (parameter :: ·)

/-- The declared parameters of an attribute, none if it is absent. -/
def readParams (origin : Origin) (path : KeyPath) : Value → Except Failure (List Parameter)
  | .null => .ok []
  | .map entries => readParameters origin path entries
  | v => .error ⟨path, .paramsNotMapping v.typeName⟩

/-- The first declared parameter whose name is taken already. -/
def checkOrigins (taken : List Parameter) : List Parameter → Except Cause Unit
  | [] => .ok ()
  | p :: rest =>
    match taken.find? (·.name = p.name) with
    | some first => .error (.originClash p.name first.origin p.origin)
    | none => checkOrigins (taken ++ [p]) rest

/-- A computation with failures of its own and no events. -/
def Recorded.ofChecked {α : Type} (x : Except Failure α) : Recorded α :=
  ⟨[], x⟩

/-- A value, or another one in place of null. -/
def orElseNull (v default : Value) : Value :=
  match v with
  | .null => default
  | v => v

/-- Binds an action whose enclosing scopes are given. -/
def bindAction (enclosing : List Scope) (name : String) (path : KeyPath) (entries : Entries) :
    Recorded Action := do
  Recorded.ofChecked (checkKeys actionKeys false path entries)
  let scope : Scope := { kind := .action, name := name, path := path.dotted }
  Recorded.record (.opened enclosing scope)
  let url ← Recorded.ofExcept (path ++ ["$url"]) <|
    resolveUrl (scope :: enclosing) (orElseNull (Value.field "$url" entries) defaultActionUrl)
  Recorded.record (.assigned "url" (.url url))
  let method ← Recorded.ofExcept (path ++ ["$method"]) <|
    readMethod (orElseNull (Value.field "$method" entries) (.str "GET"))
  Recorded.record (.assigned "method" (.value (.str method.name)))
  let pathParams ← Recorded.ofExcept path (collectPathParams [] url.slots)
  let queryParams ← Recorded.ofChecked <|
    readParams .query (path ++ ["$params"]) (Value.field "$params" entries)
  let bodyParams ← Recorded.ofChecked <|
    readParams .body (path ++ ["$data"]) (Value.field "$data" entries)
  Recorded.record (.assigned "params" (.params queryParams))
  Recorded.record (.assigned "data" (.params bodyParams))
  Recorded.ofExcept path (checkOrigins pathParams (queryParams ++ bodyParams))
  Recorded.record <| .noted <|
    "Bound action " ++ path.dotted ++ ": " ++ method.name ++ " " ++ url.pattern
  pure ⟨name, path, method, url, pathParams, queryParams, bodyParams⟩

/-- A nested API set or an action. -/
inductive Member where
  | set (s : ApiSet)
  | action (a : Action)

/-- The API sets among members. -/
def memberSets (ms : List Member) : List ApiSet :=
  ms.filterMap fun
    | .set s => some s
    | .action _ => none

/-- The actions among members. -/
def memberActions (ms : List Member) : List Action :=
  ms.filterMap fun
    | .set _ => none
    | .action a => some a

/-- The name under which a key declares a member. -/
def memberName (key : String) : String :=
  (SchemaName.setName? key).getD key

/-- Checks the name of a member against the rules and its earlier siblings, given as names with
their keys. -/
def checkMemberName (seen : List (String × String)) (name : String) : Except Cause Unit :=
  if SchemaName.isMemberName name then
    match seen.lookup name with
    | some other => .error (.siblingClash name other)
    | none => .ok ()
  else .error (.invalidMemberName name)

mutual

/-- Binds the members among entries, in order. -/
def bindMembers (lineage : List Scope) (path : KeyPath) (seen : List (String × String)) :
    Entries → Recorded (List Member)
  | [] => pure []
  | (key, node) :: rest =>
    match key with
    | .str k =>
      if SchemaName.isAttributeKey k then bindMembers lineage path seen rest
      else do
        Recorded.ofExcept (path ++ [k]) (checkMemberName seen (memberName k))
        let member ← bindMember lineage (path ++ [k]) k node
        let members ← bindMembers lineage path (seen ++ [(memberName k, k)]) rest
        pure (member :: members)
    | _ => bindMembers lineage path seen rest

/-- Binds one member. -/
def bindMember (enclosing : List Scope) (path : KeyPath) (key : String) (node : Value) :
    Recorded Member :=
  match SchemaName.setName? key, node with
  | some name, .null => Recorded.fail path (.setWithoutUrl name)
  | some name, .map entries =>
    match Value.field "$url" entries with
    | .null => Recorded.fail path (.setWithoutUrl name)
    | raw => do
      Recorded.ofChecked (checkKeys setKeys true path entries)
      let scope : Scope := { kind := .apiSet, name := name, path := path.dotted }
      Recorded.record (.opened enclosing scope)
      let url ← Recorded.ofExcept (path ++ ["$url"]) (resolveUrl (scope :: enclosing) raw)
      Recorded.record (.assigned "url" (.url url))
      Recorded.record (.noted ("Bound API set " ++ path.dotted ++ ": " ++ url.pattern))
      let members ← bindMembers (scope.assign "url" (.url url) :: enclosing) path [] entries
      pure (.set ⟨name, path, url, memberSets members, memberActions members⟩)
  | some name, v => Recorded.fail path (.setNotMapping name v.typeName)
  | none, .null => do
    let action ← bindAction enclosing key path []
    pure (.action action)
  | none, .map entries => do
    let action ← bindAction enclosing key path entries
    pure (.action action)
  | none, v => Recorded.fail path (.actionNotMapping key v.typeName)

end

/-- Binds a document. -/
def bindDocument (document : Value) (className : Option String) : Recorded Client :=
  match document with
  | .map entries => do
    Recorded.ofChecked (checkKeys clientKeys true [] entries)
    let name ← Recorded.ofExcept ["$as"] <|
      readClassName (chooseClassName className (Value.field "$as" entries))
    let scope : Scope := { kind := .client, name := name, path := "" }
    Recorded.record (.opened [] scope)
    let url ← Recorded.ofExcept ["$url"] (readRootUrl scope (Value.field "$url" entries))
    let base : UrlTemplate := ⟨[.base url]⟩
    Recorded.record (.assigned "url" (.url base))
    let members ← bindMembers [scope.assign "url" (.url base)] [] [] entries
    let root : ApiSet := ⟨name, [], base, memberSets members, memberActions members⟩
    Recorded.record <| .noted <|
      s!"Bound client {name} (root url: " ++ url.getD "None" ++ s!", {root.nodeCount} contexts)"
    pure ⟨name, url, root⟩
  | v => Recorded.fail [] (.rootNotMapping v.typeName)

/-- A tree under construction, with the indices from the root down to the node entered last. -/
structure Growth where
  tree : ContextTree := {}
  branch : List Nat := []

/-- The tree after one more event. A context goes below the node that encloses it; one that the
tree refuses is not there. -/
def Growth.step (g : Growth) : Event → Growth
  | .opened enclosing scope =>
    let above := g.branch.take enclosing.length
    match g.tree.add scope above.getLast? with
    | .error _ => g
    | .ok next => { tree := next, branch := above ++ [g.tree.size] }
  | .assigned name value =>
    match g.branch.getLast? with
    | some index => { g with tree := g.tree.assign index name value }
    | none => g
  | .noted _ => g

/-- The contexts that events have opened. -/
def treeOf (events : List Event) : ContextTree :=
  (events.foldl Growth.step {}).tree

/-- The stage that reports on binding. -/
def logSource : String := "xsrc.pipeline.analyzer.transformer"

/-- The log lines among events. -/
def logOf (events : List Event) : List LogLine :=
  events.filterMap fun
    | .noted text => some ⟨logSource, text⟩
    | _ => none

end Schema
end ClientForge
