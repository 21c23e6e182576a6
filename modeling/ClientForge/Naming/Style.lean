import ClientForge.Language
import ClientForge.Naming.Words
import ClientForge.Text.Digit
/-!
# Naming styles

How names of a schema become identifiers: the words are joined in the case style of the
language, a digit at the front gets an underscore before it, and a reserved word gets one after
it.
-/

namespace ClientForge
namespace Naming

/-- The first letter of a word in capital form, the rest unchanged. -/
def capitalized : List Char → List Char
  | [] => []
  | c :: cs => Text.upperChar c :: cs

/-- The words of a name with capitalised first letters, without separators. -/
def pascalCase (name : String) : String :=
  String.ofList ((wordsOf name.toList).flatMap capitalized)

/-- The class name of the API set that the names lead to. -/
def className (rootName : String) (names : List String) : String :=
  rootName ++ String.join (names.map pascalCase)

/-- How the words of an identifier are joined. -/
inductive Casing where
  | camel
  | snake
deriving DecidableEq, Repr

/-- A word in small letters. -/
def small (word : List Char) : List Char :=
  word.map Text.lowerChar

/-- Words in small letters with an underscore between them. -/
def joinSnake : List (List Char) → List Char
  | [] => []
  | [word] => small word
  | word :: rest => small word ++ '_' :: joinSnake rest

/-- Words in small letters, each but the first capitalised. -/
def joinCamel : List (List Char) → List Char
  | [] => []
  | word :: rest => small word ++ rest.flatMap fun w => capitalized (small w)

/-- The words of a name in a case style; a name without words stays as it is. -/
def Casing.format (casing : Casing) (name : String) : String :=
  match wordsOf name.toList with
  | [] => name
  | words =>
    match casing with
    | .camel => String.ofList (joinCamel words)
    | .snake => String.ofList (joinSnake words)

/-- An identifier that does not begin with a digit and is not reserved. -/
def escape (reserved : List String) (identifier : String) : String :=
  let safe :=
    if identifier.toList.head?.any Text.isDigit then "_" ++ identifier else identifier
  if reserved.contains safe then safe ++ "_" else safe

/-- Words of the JavaScript language, names that class bodies cannot bind, and names that the
printed sources refer to. -/
def scriptReserved : List String :=
  ["await", "break", "case", "catch", "class", "const", "continue", "debugger", "default",
   "delete", "do", "else", "enum", "export", "extends", "false", "finally", "for", "function",
   "if", "implements", "import", "in", "instanceof", "interface", "let", "new", "null", "package",
   "private", "protected", "public", "return", "static", "super", "switch", "this", "throw",
   "true", "try", "typeof", "var", "void", "while", "with", "yield", "arguments", "eval",
   "constructor", "axios"]

/-- The words that TypeScript reserves besides. -/
def typedScriptReserved : List String :=
  scriptReserved ++
    ["any", "boolean", "declare", "never", "number", "readonly", "string", "type", "unknown"]

/-- The keywords of the Python language. -/
def pythonKeywords : List String :=
  ["False", "None", "True", "and", "as", "assert", "async", "await", "break", "class", "continue",
   "def", "del", "elif", "else", "except", "finally", "for", "from", "global", "if", "import",
   "in", "is", "lambda", "nonlocal", "not", "or", "pass", "raise", "return", "try", "while",
   "with", "yield"]

/-- The Python keywords, and names that the printed sources refer to. -/
def pythonReserved : List String :=
  pythonKeywords ++ ["self", "requests"]

/-- The naming rules of a language. -/
structure Style where
  casing : Casing
  reserved : List String
deriving DecidableEq, Repr

/-- The identifier for a member or a parameter. -/
def Style.identifier (style : Style) (name : String) : String :=
  escape style.reserved (style.casing.format name)

/-- The naming rules of each language. -/
def styleOf : Language → Style
  | .javaScript => ⟨.camel, scriptReserved⟩
  | .typeScript => ⟨.camel, typedScriptReserved⟩
  | .python => ⟨.snake, pythonReserved⟩

end Naming
end ClientForge
