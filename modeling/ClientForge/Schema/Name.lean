import ClientForge.Text.Letters
/-!
# Schema names

Which names a schema may give. A single line feed at the very end is not looked at, neither in
the name of the client class nor in the names of members.
-/

namespace ClientForge
namespace SchemaName

/-- The characters before a line feed at the very end. -/
def dropFinalLineFeed : List Char → List Char
  | [] => []
  | ['\n'] => []
  | c :: cs => c :: dropFinalLineFeed cs

/-- A class name is an identifier. -/
def isClassName (s : String) : Bool :=
  Text.isIdentifier (dropFinalLineFeed s.toList)

/-- A character that may continue a member name. -/
def isMemberChar (c : Char) : Bool :=
  Text.isIdentifierChar c || c == '-'

/-- The form of a member name: like an identifier, dashes allowed after the first character. -/
def hasMemberForm : List Char → Bool
  | [] => false
  | c :: cs => Text.isIdentifierStart c && cs.all isMemberChar

/-- Whether a name has a letter or digit, so that it survives a change of case style. -/
def hasWordChar (s : String) : Bool :=
  s.toList.any Text.isWordChar

/-- A member name has the right form and at least one letter or digit. -/
def isMemberName (s : String) : Bool :=
  hasMemberForm (dropFinalLineFeed s.toList) && hasWordChar s

/-- Whether a key is an attribute and not a member. -/
def isAttributeKey (key : String) : Bool :=
  key.toList.head? == some '$'

/-- The name of the API set that a key declares. -/
def setName? (key : String) : Option String :=
  match key.toList with
  | '~' :: name => some (String.ofList name)
  | _ => none

end SchemaName
end ClientForge
