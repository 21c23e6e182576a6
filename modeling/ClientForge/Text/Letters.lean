/-!
# Letters

Classes and case of ASCII letters, and the two case foldings that are compared with ASCII words.
A folding leaves alone every character whose folded form could not be part of an ASCII word.
-/

namespace ClientForge
namespace Text

/-- An ASCII capital. -/
def isUpper (c : Char) : Bool :=
  'A' ≤ c && c ≤ 'Z'

/-- An ASCII small letter. -/
def isLower (c : Char) : Bool :=
  'a' ≤ c && c ≤ 'z'

/-- An ASCII decimal digit. -/
def isNumeral (c : Char) : Bool :=
  '0' ≤ c && c ≤ '9'

/-- An ASCII letter. -/
def isLetter (c : Char) : Bool :=
  isUpper c || isLower c

/-- An ASCII letter or digit. -/
def isWordChar (c : Char) : Bool :=
  isLetter c || isNumeral c

/-- A character that may begin an identifier. -/
def isIdentifierStart (c : Char) : Bool :=
  isLetter c || c == '_'

/-- A character that may continue an identifier. -/
def isIdentifierChar (c : Char) : Bool :=
  isWordChar c || c == '_'

/-- The small form of an ASCII capital. -/
def lowerChar (c : Char) : Char :=
  if isUpper c then Char.ofNat (c.toNat + 32) else c

/-- The capital form of an ASCII small letter. -/
def upperChar (c : Char) : Char :=
  if isLower c then Char.ofNat (c.toNat - 32) else c

/-- A text with its ASCII capitals made small. The only other character with an ASCII small
form is the Kelvin sign, whose `k` occurs in no word that such a text is compared with. -/
def lower (s : String) : String :=
  String.ofList (s.toList.map lowerChar)

/-- The capital form of a character, where that form is made of ASCII letters: the dotless i,
the long s, the sharp s and the Latin ligatures have such forms as well. -/
def capitals (c : Char) : List Char :=
  match c.toNat with
  | 0xDF => ['S', 'S']
  | 0x131 => ['I']
  | 0x17F => ['S']
  | 0xFB00 => ['F', 'F']
  | 0xFB01 => ['F', 'I']
  | 0xFB02 => ['F', 'L']
  | 0xFB03 => ['F', 'F', 'I']
  | 0xFB04 => ['F', 'F', 'L']
  | 0xFB05 => ['S', 'T']
  | 0xFB06 => ['S', 'T']
  | _ => [upperChar c]

/-- A text in capitals, exact wherever the result is an ASCII word. -/
def upper (s : String) : String :=
  String.ofList (s.toList.flatMap capitals)

/-- The characters of an identifier: a letter or underscore, then letters, digits, underscores. -/
def isIdentifier : List Char → Bool
  | [] => false
  | c :: cs => isIdentifierStart c && cs.all isIdentifierChar

end Text
end ClientForge
