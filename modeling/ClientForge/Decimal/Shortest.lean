import ClientForge.Decimal.Binary64
/-!
# Shortest decimal text

The fewest decimal digits that read back as a given binary number, the nearest such decimal if
there are several, and their text: positional for decimal exponents from -4 to 15, with an
exponent otherwise.
-/

namespace ClientForge
namespace Binary64

/-- Decimal digits standing for `digits * 10 ^ exponent`. -/
structure Decimal where
  digits : Nat
  exponent : Int
deriving DecidableEq, Repr

/-- The open or closed interval of reals that round to a number, with the number itself, all
over one denominator. -/
structure Rounding where
  low : Nat
  value : Nat
  high : Nat
  den : Nat
  closed : Bool

/-- The reals that round to `significand * 2 ^ exponent`. Below a power of two the neighbours
are closer. -/
def roundingOf (significand : Nat) (exponent : Int) : Rounding :=
  let below := if significand = twoTo 52 && exponent != leastExponent then 1 else 2
  let (scale, den) : Nat × Nat :=
    match exponent - 2 with
    | .ofNat k => (twoTo k, 1)
    | .negSucc k => (1, twoTo (k + 1))
  { low := (4 * significand - below) * scale
    value := 4 * significand * scale
    high := (4 * significand + 2) * scale
    den := den
    closed := significand % 2 = 0 }

/-- Whether `digits * 10 ^ exponent` lies in the interval. -/
def Rounding.holds (r : Rounding) (d : Decimal) : Bool :=
  let (num, den) : Nat × Nat :=
    match d.exponent with
    | .ofNat k => (d.digits * tenTo k, 1)
    | .negSucc k => (d.digits, tenTo (k + 1))
  let point := num * r.den
  let low := r.low * den
  let high := r.high * den
  if r.closed then low ≤ point && point ≤ high else low < point && point < high

/-- The value divided by `10 ^ exponent`: the integer part, and how twice the rest compares
with one. -/
def Rounding.onGrid (r : Rounding) (exponent : Int) : Nat × Ordering :=
  let (num, den) : Nat × Nat :=
    match exponent with
    | .ofNat k => (r.value, r.den * tenTo k)
    | .negSucc k => (r.value * tenTo (k + 1), r.den)
  (num / den, compare (2 * (num % den)) den)

/-- The better of the two grid neighbours of the value that read back, if one does: the nearer
one, and the even one of two equally near. -/
def Rounding.candidate? (r : Rounding) (exponent : Int) : Option Decimal :=
  let (q, half) := r.onGrid exponent
  let lower : Decimal := ⟨q, exponent⟩
  let upper : Decimal := ⟨q + 1, exponent⟩
  match r.holds lower, r.holds upper with
  | false, false => none
  | true, false => some lower
  | false, true => some upper
  | true, true =>
    match half with
    | .lt => some lower
    | .gt => some upper
    | .eq => some (if q % 2 = 0 then lower else upper)

/-- The first grid, from coarse to fine, on which some decimal reads back. -/
def Rounding.search (r : Rounding) (exponent : Int) : Nat → Decimal
  | 0 => ⟨(r.onGrid exponent).1, exponent⟩
  | steps + 1 =>
    match r.candidate? exponent with
    | some d => d
    | none => r.search (exponent - 1) steps

/-- A decimal without trailing zeros among its digits. -/
def Decimal.reduced (d : Decimal) : Decimal :=
  let kept := (Nat.toDigits 10 d.digits).reverse.takeWhile (· == '0')
  ⟨d.digits / tenTo kept.length, d.exponent + kept.length⟩

/-- The shortest decimal that reads back as `significand * 2 ^ exponent`; zero is its own. The
search starts on a grid too coarse for any digit. -/
def shortest (significand : Nat) (exponent : Int) : Decimal :=
  if significand = 0 then ⟨0, 0⟩
  else
    let top : Int := ((significand.log2 : Int) + exponent) * 30103 / 100000 + 2
    ((roundingOf significand exponent).search top 24).reduced

/-- The two texts of an exponent: at least two digits after the sign. -/
def exponentText (e : Int) : String :=
  let digits := Nat.toDigits 10 e.natAbs
  (if e < 0 then "e-" else "e+") ++
    String.ofList (List.replicate (2 - digits.length) '0' ++ digits)

/-- The text of a decimal: a point is always written unless there is an exponent. -/
def Decimal.text (d : Decimal) : String :=
  let digits := Nat.toDigits 10 d.digits
  let count := digits.length
  let order : Int := d.exponent + (count : Int) - 1
  if order < -4 || 16 ≤ order then
    let fraction := digits.drop 1
    String.ofList (digits.take 1 ++ (if fraction.isEmpty then [] else '.' :: fraction)) ++
      exponentText order
  else if order < 0 then
    String.ofList ('0' :: '.' :: List.replicate (-order - 1).toNat '0' ++ digits)
  else
    let whole := (order + 1).toNat
    let left := digits.take whole ++ List.replicate (whole - count) '0'
    let right := digits.drop whole
    String.ofList (left ++ '.' :: (if right.isEmpty then ['0'] else right))

/-- The texts of the numbers that are not finite. -/
structure SpecialTexts where
  infinity : String
  undefined : String

/-- Plain words for the special numbers, as messages show them. -/
def plainSpecials : SpecialTexts := ⟨"inf", "nan"⟩

/-- The text of a number, shortest digits first. -/
def render (specials : SpecialTexts) : Binary64 → String
  | .nan => specials.undefined
  | .infinite false => specials.infinity
  | .infinite true => "-" ++ specials.infinity
  | .finite s m e => (if s then "-" else "") ++ (shortest m e).text

/-- The text of a number in messages. -/
def text (x : Binary64) : String :=
  x.render plainSpecials

end Binary64
end ClientForge
