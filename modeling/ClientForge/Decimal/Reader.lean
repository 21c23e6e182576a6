import ClientForge.Decimal.Binary64
import ClientForge.Text.Blank
import ClientForge.Text.Digit
import ClientForge.Text.Split
/-!
# Reading numbers

Number texts: decimal digits of any script with single underscores between digits, a fraction
and an exponent, or a word for a special number. Integers are ASCII digits with a sign.
-/

namespace ClientForge
namespace Binary64

/-- Digits of any script as ASCII digits. Other characters stay as they are. -/
def asciiDigits (cs : List Char) : List Char :=
  cs.map fun c =>
    match Text.decimalValue? c with
    | some v => Char.ofNat (48 + v)
    | none => c

/-- Digits without the underscores between them; `none` if an underscore does not stand
between two digits. -/
def dropUnderscores : List Char → Option (List Char)
  | [] => some []
  | '_' :: _ => none
  | a :: '_' :: b :: rest =>
    if Text.isNumeral a && Text.isNumeral b then (dropUnderscores (b :: rest)).map (a :: ·)
    else none
  | a :: rest => (dropUnderscores rest).map (a :: ·)

/-- The sign of a number text and what follows it. -/
def splitSign : List Char → Bool × List Char
  | '-' :: rest => (true, rest)
  | '+' :: rest => (false, rest)
  | cs => (false, cs)

/-- An exponent part, which may be absent. -/
def readExponent : List Char → Option Int
  | [] => some 0
  | c :: rest =>
    if c = 'e' || c = 'E' then
      let (negative, digits) := splitSign rest
      if digits.isEmpty || !digits.all Text.isNumeral then none
      else
        let n : Int := Text.naturalOfDigits digits
        some (if negative then -n else n)
    else none

/-- Whole and fractional digits with an exponent, at least one digit in all. -/
def readUnsigned (negative : Bool) (cs : List Char) : Option Binary64 :=
  let whole := cs.takeWhile Text.isNumeral
  let afterWhole := cs.dropWhile Text.isNumeral
  let (fraction, rest) :=
    match afterWhole with
    | '.' :: r => (r.takeWhile Text.isNumeral, r.dropWhile Text.isNumeral)
    | r => ([], r)
  if whole.isEmpty && fraction.isEmpty then none
  else
    (readExponent rest).map fun e =>
      ofDecimal negative (Text.naturalOfDigits (whole ++ fraction)) (e - fraction.length)

/-- The words for special numbers, in any case. -/
def readSpecial (negative : Bool) (cs : List Char) : Option Binary64 :=
  let word := String.ofList (cs.map Text.lowerChar)
  if word == "inf" || word == "infinity" then some (.infinite negative)
  else if word == "nan" then some .nan
  else none

/-- The number a text stands for. The text has no blanks around it. -/
def read? (s : String) : Option Binary64 :=
  (dropUnderscores (asciiDigits s.toList)).bind fun cs =>
    let (negative, rest) := splitSign cs
    (readSpecial negative rest).orElse fun _ => readUnsigned negative rest

end Binary64

/-- A blank that may stand around a number; the information separators may not. -/
def isNumberBlank (c : Char) : Bool :=
  Text.isBlank c && !(0x1C ≤ c.toNat && c.toNat ≤ 0x1F)

/-- The characters between the blanks around a number. -/
def trimNumber (cs : List Char) : List Char :=
  ((cs.dropWhile isNumberBlank).reverse.dropWhile isNumberBlank).reverse

/-- Whether a text is an optional sign and ASCII digits. -/
def isIntegerText (cs : List Char) : Bool :=
  let (_, digits) := Binary64.splitSign cs
  !digits.isEmpty && digits.all Text.isNumeral

/-- The whole number that an integer text stands for. -/
def integerOfText (cs : List Char) : Int :=
  let (negative, digits) := Binary64.splitSign cs
  let n : Int := Text.naturalOfDigits digits
  if negative then -n else n

/-- The most digits that an integer text may have. -/
def integerDigitLimit : Nat := 4300

end ClientForge
