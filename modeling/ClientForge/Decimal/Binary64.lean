/-!
# Binary floating point

Numbers of the 64-bit binary format as values: a sign, a significand and an exponent of two.
Every function here works in exact natural arithmetic and rounds once, to the nearest number of
the format, a tie going to the even significand.
-/

namespace ClientForge

/-- A power of two. -/
def twoTo (k : Nat) : Nat := Nat.pow 2 k

/-- A power of ten. -/
def tenTo (k : Nat) : Nat := Nat.pow 10 k

/-- A number of the 64-bit binary format. A finite number is `significand * 2 ^ exponent` with
its sign; the functions below use the one form with a significand below `2 ^ 53` and the least
exponent that allows it, not under `-1074`. -/
inductive Binary64 where
  | nan
  | infinite (negative : Bool)
  | finite (negative : Bool) (significand : Nat) (exponent : Int)
deriving DecidableEq, Repr

namespace Binary64

/-- Neither infinite nor undefined. -/
def isFinite : Binary64 → Bool
  | .finite .. => true
  | _ => false

/-- The quotient of two numbers rounded to the nearest integer, a half to the even one. -/
def divideToEven (num den : Nat) : Nat :=
  let q := num / den
  let twice := 2 * (num % den)
  if twice < den then q
  else if den < twice then q + 1
  else if q % 2 = 0 then q
  else q + 1

/-- The numerator and denominator of `num / den` divided by a power of two. -/
def scaleDown (num den : Nat) : Int → Nat × Nat
  | .ofNat k => (num, den * twoTo k)
  | .negSucc k => (num * twoTo (k + 1), den)

/-- The greatest `k` with `2 ^ k ≤ num / den`, for positive arguments. -/
def binaryOrder (num den : Nat) : Int :=
  let k : Int := (num.log2 : Int) - (den.log2 : Int)
  let (n, d) := scaleDown num den k
  if d ≤ n then k else k - 1

/-- The least exponent of the format. -/
def leastExponent : Int := -1074

/-- The greatest exponent of a finite number. -/
def greatestExponent : Int := 971

/-- The number of the format nearest to a quotient; `den` is positive. -/
def ofRatio (negative : Bool) (num den : Nat) : Binary64 :=
  if num = 0 then .finite negative 0 leastExponent
  else
    let exponent := max (binaryOrder num den - 52) leastExponent
    let (n, d) := scaleDown num den exponent
    let significand := divideToEven n d
    let (significand, exponent) :=
      if significand = twoTo 53 then (twoTo 52, exponent + 1) else (significand, exponent)
    if greatestExponent < exponent then .infinite negative
    else .finite negative significand exponent

/-- The number of the format nearest to `digits * 10 ^ exponent`. Far outside the range of the
format no power is computed. -/
def ofDecimal (negative : Bool) (digits : Nat) (exponent : Int) : Binary64 :=
  if digits = 0 then .finite negative 0 leastExponent
  else
    let magnitude : Int := ((Nat.toDigits 10 digits).length : Int) + exponent
    if 400 < magnitude then .infinite negative
    else if magnitude < -400 then .finite negative 0 leastExponent
    else
      match exponent with
      | .ofNat k => ofRatio negative (digits * tenTo k) 1
      | .negSucc k => ofRatio negative digits (tenTo (k + 1))

/-- A whole number in the format. -/
def ofNat (n : Nat) : Binary64 :=
  ofRatio false n 1

/-- The opposite number. -/
def negate : Binary64 → Binary64
  | .nan => .nan
  | .infinite s => .infinite !s
  | .finite s m e => .finite (!s) m e

/-- Whether a number is one of the zeros. -/
def isZero : Binary64 → Bool
  | .finite _ 0 _ => true
  | _ => false

/-- The sign of a number. -/
def isNegative : Binary64 → Bool
  | .nan => false
  | .infinite s => s
  | .finite s _ _ => s

/-- The product of two numbers; that of zero and infinity is undefined. -/
def product : Binary64 → Binary64 → Binary64
  | .nan, _ => .nan
  | _, .nan => .nan
  | .finite s m e, .finite t n f =>
    let (num, den) := scaleDown (m * n) 1 (-(e + f))
    ofRatio (s != t) num den
  | x, y => if x.isZero || y.isZero then .nan else .infinite (x.isNegative != y.isNegative)

/-- A significand with its sign, for an exponent that is not above its own. -/
def signedAt (low : Int) (negative : Bool) (significand : Nat) (exponent : Int) : Int :=
  let size : Int := significand * twoTo (exponent - low).toNat
  if negative then -size else size

/-- The sum of two numbers; that of opposite infinities is undefined. A sum of zero is negative
if both numbers are. -/
def sum : Binary64 → Binary64 → Binary64
  | .nan, _ => .nan
  | _, .nan => .nan
  | .finite s m e, .finite t n f =>
    let low := min e f
    let total := signedAt low s m e + signedAt low t n f
    let (num, den) := scaleDown total.natAbs 1 (-low)
    ofRatio (if total = 0 then s && t else total < 0) num den
  | .infinite s, .infinite t => if s = t then .infinite s else .nan
  | .infinite s, .finite .. => .infinite s
  | .finite .., .infinite t => .infinite t

/-- Whether a number equals a whole number exactly. -/
def isInteger (x : Binary64) (n : Int) : Bool :=
  match x with
  | .finite s m e =>
    let signed : Int := if s then -(m : Int) else m
    match e with
    | .ofNat k => signed * twoTo k == n
    | .negSucc k => signed == n * twoTo (k + 1)
  | _ => false

/-- Whether two numbers count as the same mapping key: both zeros are one key, and so is every
undefined number. -/
def sameKey : Binary64 → Binary64 → Bool
  | .finite _ 0 _, .finite _ 0 _ => true
  | x, y => x == y

end Binary64
end ClientForge
