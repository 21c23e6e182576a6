import ClientForge.Client.Module
import ClientForge.Source.FormattedText
import ClientForge.Source.Layout
/-!
# Python sources

One class per API set, nested sets as properties, each action a method with a single request.
A required parameter after one with a default makes itself and all later ones keyword-only.
-/

namespace ClientForge
namespace Source
namespace PythonText

/-- The texts of numbers that are not finite: sums of numbers that overflow. -/
def specials : Binary64.SpecialTexts := ⟨"1e309", "(1e309-1e309)"⟩

/-- A constant in the sources. -/
def literal : Literal → String
  | .null => "None"
  | .boolean b => if b then "True" else "False"
  | .integer n => toString n
  | .number x => x.render specials
  | .string s => Text.displayed s

/-- The name of a type in the sources. -/
def typeName : Primitive → String
  | .string => "str"
  | .number => "float"
  | .boolean => "bool"

/-- The parameters of a function after the receiver. Defaults of positional parameters belong
to the last of them. -/
structure Signature where
  positional : List Argument
  keywordOnly : List Argument
  defaults : List Literal
  keywordDefaults : List (Option Literal)
deriving DecidableEq, Repr

/-- The parameters before the first required one that follows a default, and the rest. -/
def splitArguments : Bool → List Argument → List Argument × List Argument
  | _, [] => ([], [])
  | seenDefault, a :: rest =>
    if a.default.isNone && seenDefault then ([], a :: rest)
    else
      let (positional, keywordOnly) := splitArguments (seenDefault || a.default.isSome) rest
      (a :: positional, keywordOnly)

/-- The signature for parameters in their declared order. -/
def signature (list : List Argument) : Signature :=
  let (positional, keywordOnly) := splitArguments false list
  { positional := positional
    keywordOnly := keywordOnly
    defaults := positional.filterMap (·.default)
    keywordDefaults := keywordOnly.map (·.default) }

/-- Defaults for the last of `count` parameters. -/
def alignRight (count : Nat) (defaults : List Literal) : List (Option Literal) :=
  List.replicate (count - defaults.length) none ++ defaults.map some

/-- A parameter with its type and its default. -/
def parameter (a : Argument) (default : Option Literal) : String :=
  a.name ++ ": " ++ typeName a.type ++
    match default with
    | none => ""
    | some value => "=" ++ literal value

/-- The parameters in parentheses, the receiver first. -/
def parameterList (s : Signature) : String :=
  let positional := List.zipWith parameter s.positional (alignRight s.positional.length s.defaults)
  let keywordOnly := List.zipWith parameter s.keywordOnly s.keywordDefaults
  Text.join ", " ("self" :: positional ++ (if keywordOnly.isEmpty then [] else "*" :: keywordOnly))

/-- The header line of a function. -/
def defLine (name parameters result : String) : String :=
  "    def " ++ name ++ "(" ++ parameters ++ ") -> " ++ result ++ ":"

/-- A line of a function body. -/
def bodyLine (statement : String) : String :=
  "        " ++ statement

/-- The part of a formatted string for a piece of a URL. -/
def piecePart : UrlPiece → FormattedText.Part
  | .text s => .text s
  | .param name _ => .expression ("_path(" ++ name ++ ")")
  | .base hops => .expression ("self" ++ Text.repeated "._super" hops ++ "._url")

/-- The text of a piece that is nothing but text. -/
def pieceText? : UrlPiece → Option String
  | .text s => some s
  | _ => none

/-- The release of Python whose formatted strings are printed. -/
def release : FormattedText.Release := .early

/-- The expression for a URL: a string if it is all text, else a formatted string. -/
def url (pieces : List UrlPiece) : Except Fault String :=
  match pieces.mapM pieceText? with
  | some texts => .ok (Text.displayed (String.join texts))
  | none => FormattedText.literal release (pieces.map piecePart)

/-- A bag of arguments as a keyword of the request, none if it is empty. -/
def bag (key : String) (list : List Argument) : List String :=
  if list.isEmpty then []
  else
    [key ++ "=\x7b" ++
      Text.join ", " (list.map fun a => Text.displayed a.wireName ++ ": " ++ a.name) ++ "\x7d"]

/-- The expression for a request. -/
def call (c : Call) : Except Fault String :=
  (url c.url).map fun address =>
    "requests.request(" ++
      Text.join ", " (Text.displayed c.method :: address :: bag "params" c.query ++
        bag "json" c.body) ++ ")"

/-- The statements of a method. -/
def method (m : Method) : Except Fault (List String) :=
  (call m.call).map fun request =>
    [defLine m.name (parameterList (signature m.arguments)) "requests.Response",
     bodyLine ("return " ++ request)]

/-- The statements of an accessor. -/
def accessor (a : Accessor) : List String :=
  ["    @property", defLine a.name "self" a.className,
   bodyLine ("return " ++ a.className ++ "(self)")]

/-- The statements of a constructor. -/
def constructor (c : Constructor) : Except Fault (List String) :=
  match c.parentClass with
  | some parent =>
    .ok [defLine "__init__" ("self, _super: " ++ parent) "None", bodyLine "self._super = _super"]
  | none =>
    match c.arguments with
    | [] => .error .rootWithoutArgument
    | first :: _ =>
      .ok [defLine "__init__" (parameterList (signature c.arguments)) "None",
        bodyLine ("self._url = " ++ first.name)]

/-- The statements of methods. -/
def methods : List Method → Except Fault (List String)
  | [] => .ok []
  | m :: rest => do
    let own ← method m
    let others ← methods rest
    pure (own ++ others)

/-- The statements of a class. -/
def classStatements (c : ClassDecl) : Except Fault (List String) := do
  let built ← constructor c.constructor
  let called ← methods c.methods
  pure (("class " ++ c.name ++ ":") :: built ++ c.accessors.flatMap accessor ++ called)

/-- The statements of classes. -/
def classesStatements : List ClassDecl → Except Fault (List String)
  | [] => .ok []
  | c :: rest => do
    let own ← classStatements c
    let others ← classesStatements rest
    pure (own ++ others)

/-- The fixed lines above the classes: the rest of the prefix template for Python, which has no tags
in it. -/
def preamble : List String :=
  ["from __future__ import annotations",
   "",
   "from urllib.parse import quote",
   "",
   "import requests",
   "",
   "",
   "def _path(value: object) -> str:",
   "    \"\"\"Quote a path parameter for use in a URL.\"\"\"",
   "    if isinstance(value, bool):",
   "        return \"true\" if value else \"false\"",
   "    return quote(str(value), safe=\"\")"]

/-- The lines above the classes. -/
def header (comment : String) : List String :=
  headerLines "#" comment preamble

/-- Whether a line begins with a text. -/
def startsWith (start : String) (cs : List Char) : Bool :=
  start.toList.isPrefixOf cs

/-- The empty lines before a line, which depend on the line above it. -/
def gapBefore (above line : String) : List String :=
  let start := Text.trimStart line.toList
  let aboveStart := Text.trimStart above.toList
  if startsWith "class " line.toList then ["", ""]
  else if (startsWith "def " start || startsWith "@" start) &&
      !(startsWith "@" aboveStart || startsWith "class " aboveStart) then [""]
  else []

/-- Lines of code with empty lines put between them; blank lines of the code are dropped. -/
def layOut (above : String) : List String → List String
  | [] => []
  | line :: rest =>
    if Text.isBlankText line then layOut above rest
    else gapBefore above line ++ line :: layOut line rest

/-- The source of a module. -/
def source (m : Module) : Except Fault String :=
  (classesStatements m.classes).map fun statements =>
    let top := header m.comment
    Text.unlines (top ++ layOut (top.getLast?.getD "") (statements.flatMap Text.lines)) ++ "\n"

end PythonText
end Source
end ClientForge
