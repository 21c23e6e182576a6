import ClientForge.Text.Quoted
/-!
# Texts that may not be encodable

A text from outside may hold one half of a surrogate pair without the other. Such a half is no
character and has no octets, so a text can be written only if it has none.
-/

namespace ClientForge
namespace Text

/-- A character, or half of a surrogate pair that stands alone. -/
inductive Point where
  | char (c : Char)
  | half (number : Fin 2048)
deriving DecidableEq, Repr

/-- A text with lone halves in it, if any. -/
abbrev Points := List Point

/-- The first halves of a text that stand in a row, by their places. -/
structure EncodeFault where
  first : Nat
  last : Nat
  number : Fin 2048
deriving DecidableEq, Repr

/-- The wording of a text that cannot be encoded. -/
def EncodeFault.message (f : EncodeFault) : String :=
  let place :=
    if f.first = f.last then
      "character '\\u" ++ String.ofList (hex 4 (0xD800 + f.number.val)) ++ s!"' in position {f.first}"
    else s!"characters in position {f.first}-{f.last}"
  "'utf-8' codec can't encode " ++ place ++ ": surrogates not allowed"

namespace Points

/-- A text of characters only. -/
def ofString (s : String) : Points :=
  s.toList.map .char

/-- The characters of a text that has no lone halves. -/
def chars? : Points → Option (List Char)
  | [] => some []
  | .char c :: rest => (chars? rest).map (c :: ·)
  | .half _ :: _ => none

/-- The text with a replacement for each half. -/
def replaced (text : Points) : String :=
  String.ofList <| text.map fun
    | .char c => c
    | .half _ => Char.ofNat 0xFFFD

/-- Whether a half stands alone. -/
def isHalf : Point → Bool
  | .char _ => false
  | .half _ => true

/-- Where a text cannot be encoded first. -/
def fault (text : Points) : EncodeFault :=
  let before := text.takeWhile (!isHalf ·)
  let halves := (text.dropWhile (!isHalf ·)).takeWhile isHalf
  { first := before.length
    last := before.length + halves.length - 1
    number := match halves with
      | .half number :: _ => number
      | _ => 0 }

/-- The octets of a text. -/
def encode (text : Points) : Except EncodeFault (List UInt8) :=
  match text.chars? with
  | some cs => .ok (String.ofList cs).toUTF8.data.toList
  | none => .error text.fault

end Points
end Text
end ClientForge
