import ClientForge.Text.Letters
/-!
# Places in a YAML text

The characters from a place on, with the line and the column of that place. Both count from
zero, and a byte order mark has no width.
-/

namespace ClientForge
namespace Yaml

/-- The characters that end a line. -/
def isBreak (c : Char) : Bool :=
  c == '\n' || c == '\x85' || c == '\u2028' || c == '\u2029'

/-- The end of a line or of the text. -/
def atLineEnd : Option Char → Bool
  | none => true
  | some c => isBreak c

/-- A space, or the end of a line or of the text. -/
def atSpace : Option Char → Bool
  | none => true
  | some c => c == ' ' || isBreak c

/-- A space or a tab, or the end of a line or of the text. -/
def atBlank : Option Char → Bool
  | none => true
  | some c => c == ' ' || c == '\t' || isBreak c

/-- A space or a tab. -/
def isBlank (c : Char) : Bool :=
  c == ' ' || c == '\t'

/-- A character of names of anchors, of tag handles and of directives. -/
def isNameChar (c : Char) : Bool :=
  Text.isWordChar c || c == '-' || c == '_'

/-- The characters that may occur in a text at all. -/
def isAllowed (c : Char) : Bool :=
  let n := c.toNat
  n == 0x09 || n == 0x0A || n == 0x0D || (0x20 ≤ n && n ≤ 0x7E) || n == 0x85 ||
    (0xA0 ≤ n && n ≤ 0xFFFD) || 0x10000 ≤ n

/-- A place in a text. -/
structure Cursor where
  rest : List Char
  index : Nat := 0
  line : Nat := 0
  column : Nat := 0
deriving DecidableEq, Repr

namespace Cursor

/-- The character at a place. -/
def peek (here : Cursor) : Option Char :=
  here.rest.head?

/-- The character a number of characters further. -/
def peekAt (here : Cursor) (n : Nat) : Option Char :=
  (here.rest.drop n).head?

/-- The place after a character. -/
def pass (here : Cursor) (c : Char) : Cursor :=
  if isBreak c then ⟨here.rest.drop 1, here.index + 1, here.line + 1, 0⟩
  else
    let width := if c = '\ufeff' then 0 else 1
    ⟨here.rest.drop 1, here.index + 1, here.line, here.column + width⟩

/-- The place a number of characters further. -/
def advance (here : Cursor) (n : Nat) : Cursor :=
  (here.rest.take n).foldl pass here

/-- The characters of a class from a place on, and the place after them. -/
def takeWhile (here : Cursor) (accept : Char → Bool) : List Char × Cursor :=
  let taken := here.rest.takeWhile accept
  (taken, taken.foldl pass here)

/-- The place after the characters of a class. -/
def skip (here : Cursor) (accept : Char → Bool) : Cursor :=
  (here.takeWhile accept).2

/-- The line end at a place, if there is one, and the place after it. A next-line character
counts as a line feed; the Unicode separators stand for themselves. -/
def lineBreak (here : Cursor) : List Char × Cursor :=
  match here.peek with
  | some c =>
    if c = '\n' ∨ c = '\x85' then (['\n'], here.advance 1)
    else if isBreak c then ([c], here.advance 1)
    else ([], here)
  | none => ([], here)

/-- Whether a marker between documents begins here. -/
def atMarker (here : Cursor) (marker : List Char) : Bool :=
  marker.isPrefixOf here.rest && atBlank (here.peekAt 3)

/-- Whether one of the markers between documents begins here. -/
def atSeparator (here : Cursor) : Bool :=
  here.atMarker ['-', '-', '-'] || here.atMarker ['.', '.', '.']

end Cursor

end Yaml
end ClientForge
