import ClientForge.Document.Yaml.Tag
import ClientForge.Text.Casing
/-!
# Values of YAML scalars

What a text stands for under each tag. A tag may be put on any text, so that numbers and truth
values are read from whatever text there is, and fail on most.
-/

namespace ClientForge
namespace Yaml

/-! ## Integers -/

/-- The value of a digit in a base, of any script. -/
def digitOf? (base : Nat) (c : Char) : Option Nat :=
  match (Text.decimalValue? c).orElse fun _ =>
    if Text.isLetter c then some ((Text.lowerChar c).toNat - 87) else none with
  | some v => if v < base then some v else none
  | none => none

/-- The digits after the mark of a base, which may be left out. -/
def dropBaseMark (base : Nat) : List Char → List Char
  | '0' :: mark :: rest =>
    let found := match Text.lowerChar mark with
      | 'b' => 2
      | 'o' => 8
      | 'x' => 16
      | _ => 0
    if base = found then rest else '0' :: mark :: rest
  | cs => cs

/-- The whole number of a text in a base. Blanks around it, a sign and the mark of the base are
allowed. -/
def readInteger (base : Nat) (cs : List Char) : Except Problem Int :=
  let (negative, signless) := Binary64.splitSign (cs.dropWhile isNumberBlank)
  let body := dropBaseMark base signless
  let digits := body.takeWhile fun c => (digitOf? base c).isSome
  let rest := (body.drop digits.length).dropWhile isNumberBlank
  if base = 10 ∧ integerDigitLimit < digits.length then .error (.longInteger digits.length)
  else if digits.isEmpty ∨ !rest.isEmpty then .error (.notInteger base (String.ofList cs))
  else
    let n : Nat := (digits.filterMap (digitOf? base)).foldl (fun n v => base * n + v) 0
    .ok (if negative then -(n : Int) else n)

/-- The sum of places to base sixty, the last one the smallest. -/
def sexagesimal (places : List Int) : Int :=
  places.foldl (fun total place => 60 * total + place) 0

/-- The value of an integer text. -/
def intValue (s : String) : Except Problem Int := do
  let cs := s.toList.filter (· != '_')
  if cs.isEmpty then .error .emptyNumber
  else
    let (negative, body) := Binary64.splitSign cs
    let sign : Int := if negative then -1 else 1
    match body with
    | [] => .error .emptyNumber
    | ['0'] => pure 0
    | '0' :: 'b' :: rest => (readInteger 2 rest).map (sign * ·)
    | '0' :: 'x' :: rest => (readInteger 16 rest).map (sign * ·)
    | '0' :: _ => (readInteger 8 body).map (sign * ·)
    | _ =>
      let places ← (Text.splitOn ':' body).mapM (readInteger 10)
      pure (sign * sexagesimal places)

/-! ## Numbers -/

/-- The number of a text with blanks around it. -/
def readNumber (cs : List Char) : Except Problem Binary64 :=
  match Binary64.read? (String.ofList (trimNumber cs)) with
  | some x => .ok x
  | none => .error (.notNumber (String.ofList cs))

/-- The sum of places to base sixty, taken from the last one on. The unit of a place has to be a
finite number. -/
def sexagesimalSum (unit : Nat) (total : Binary64) : List Binary64 → Except Problem Binary64
  | [] => .ok total
  | place :: rest =>
    let factor := Binary64.ofNat unit
    if factor.isFinite then sexagesimalSum (60 * unit) (total.sum (place.product factor)) rest
    else .error .largeFactor

/-- A number text in small letters without underscores: whether it is negative, and the rest. -/
def numberText (s : String) : Bool × List Char :=
  Binary64.splitSign (Text.lowercase (String.ofList (s.toList.filter (· != '_')))).toList

/-- The word for an undefined number. -/
def isUndefinedWord (s : String) : Bool :=
  (numberText s).2 = ".nan".toList

/-- The value of a number text. -/
def floatValue (s : String) : Except Problem Binary64 := do
  let (negative, body) := numberText s
  let signed (x : Binary64) : Binary64 := if negative then x.negate else x
  if s.toList.all (· == '_') then .error .emptyNumber
  else if body = ".inf".toList then pure (signed (.infinite false))
  else if isUndefinedWord s then pure .nan
  else if body.contains ':' then
    let places ← (Text.splitOn ':' body).mapM readNumber
    (sexagesimalSum 1 (.ofNat 0) places.reverse).map signed
  else (readNumber body).map signed

/-! ## Other scalars -/

/-- The value of a word for a truth value. -/
def boolValue (s : String) : Except Problem Bool :=
  let word := Text.lowercase s
  if ["yes", "true", "on"].contains word then .ok true
  else if ["no", "false", "off"].contains word then .ok false
  else .error (.notBoolean word)

/-- The number of six bits that a character stands for. -/
def sextet? (c : Char) : Option Nat :=
  if Text.isUpper c then some (c.toNat - 65)
  else if Text.isLower c then some (c.toNat - 71)
  else if Text.isNumeral c then some (c.toNat + 4)
  else if c = '+' then some 62
  else if c = '/' then some 63
  else none

/-- The octets of characters that stand for six bits each, after some bits that are left over.
Other characters are passed over. Four characters make a group, and the last group may be filled
up with equality signs, of which so many have been seen. -/
def octetsOf (place carry pads : Nat) : List Char → Option (List UInt8)
  | [] => if place = 0 then some [] else none
  | c :: rest =>
    if c = '=' then
      if 2 ≤ place ∧ 4 ≤ place + pads + 1 then some []
      else octetsOf place carry (if 2 ≤ place then pads + 1 else pads) rest
    else
      match sextet? c with
      | none => octetsOf place carry pads rest
      | some bits =>
        let octet (n : Nat) : UInt8 := UInt8.ofNat n
        match place with
        | 0 => octetsOf 1 bits 0 rest
        | 1 => (octetsOf 2 (bits % 16) 0 rest).map (octet (4 * carry + bits / 16) :: ·)
        | 2 => (octetsOf 3 (bits % 4) 0 rest).map (octet (16 * carry + bits / 4) :: ·)
        | _ => (octetsOf 0 0 0 rest).map (octet (64 * carry + bits) :: ·)

/-- The octets of a binary text. -/
def binaryValue (s : String) : Except Fault Value :=
  if s.toList.all (·.toNat < 0x80) then
    match octetsOf 0 0 0 s.toList with
    | some octets => .ok (.other ⟨"bytes", some (Text.displayedOctets octets), octets.isEmpty⟩)
    | none => .error .malformed
  else .error .malformed

/-- The value of a scalar, none for a tag that scalars do not have. -/
def scalarValue? (tag : Tag) (s : String) : Option (Except Fault Value) :=
  match tag with
  | .null => some (.ok .null)
  | .bool => some (((boolValue s).map .bool).mapError .value)
  | .int => some (((intValue s).map .int).mapError .value)
  | .float => some (((floatValue s).map .float).mapError .value)
  | .time => some ((timeValue s).mapError .value)
  | .binary => some (binaryValue s)
  | .str => some (.ok (.str s))
  | _ => none

end Yaml
end ClientForge
