import ClientForge.Decimal.Binary64
import Mathlib.Algebra.Order.Field.Power
import Mathlib.Algebra.Order.Ring.Abs
import Mathlib.Data.Rat.Cast.Order
import Mathlib.Tactic.FieldSimp
import Mathlib.Tactic.Linarith
import Mathlib.Tactic.NormNum
import Mathlib.Tactic.Positivity
import Mathlib.Tactic.Ring
/-!
# Rounding to the nearest number

`Nearest` says which finite number of the binary format stands for a ratio: no other is nearer,
and of two that are equally near it is the one with the even significand.  From `overflow` on there
is none.  There is at most one such number (`Nearest.unique`), and it is what a decimal number is
read as (`ofDecimal_eq_finite_iff`).
-/

namespace ClientForge
namespace Binary64

/-- The size of a number with a significand and an exponent of two. -/
def size (significand : Nat) (exponent : Int) : ℚ := significand * 2 ^ exponent

/-- The significands and exponents of finite numbers, one pair for each size. -/
structure Canonical (significand : Nat) (exponent : Int) : Prop where
  lt : significand < 2 ^ 53
  normal : 2 ^ 52 ≤ significand ∨ exponent = -1074
  least : -1074 ≤ exponent
  greatest : exponent ≤ 971

/-- Halfway between the greatest finite number and the next power of two. -/
def overflow : ℚ := size (2 ^ 54 - 1) 970

/-- The finite number nearest to a ratio. -/
structure Nearest (q : ℚ) (significand : Nat) (exponent : Int) : Prop where
  canonical : Canonical significand exponent
  below : q < overflow
  nearest : ∀ n f, Canonical n f → |q - size significand exponent| ≤ |q - size n f|
  even : ∀ n f, Canonical n f → size n f ≠ size significand exponent →
    |q - size n f| = |q - size significand exponent| → Even significand

/-! ## Sizes -/

theorem size_add (m n : Nat) (e : Int) : size (m + n) e = size m e + size n e := by
  rw [size, size, size]
  push_cast
  ring

theorem size_le_size {m n : Nat} {e : Int} : size m e ≤ size n e ↔ m ≤ n := by
  rw [size, size, mul_le_mul_iff_left₀ (zpow_pos (by norm_num) e), Nat.cast_le]

theorem size_lt_size {m n : Nat} {e : Int} : size m e < size n e ↔ m < n := by
  rw [size, size, mul_lt_mul_iff_left₀ (zpow_pos (by norm_num) e), Nat.cast_lt]

theorem size_zero (e : Int) : size 0 e = 0 := by
  simp [size]

theorem size_two_pow (k : Nat) (e : Int) : size (2 ^ k) e = 2 ^ (k + e) := by
  rw [size, zpow_add₀ (by norm_num), zpow_natCast, Nat.cast_pow]
  rfl

theorem size_one_pos (e : Int) : 0 < size 1 e :=
  size_zero e ▸ size_lt_size.mpr Nat.one_pos

theorem size_double (m : Nat) (e : Int) : size (2 * m) e = size m (e + 1) := by
  rw [size, size, zpow_add_one₀ (by norm_num)]
  push_cast
  ring

theorem size_mono (m : Nat) {e f : Int} (h : e ≤ f) : size m e ≤ size m f :=
  mul_le_mul_of_nonneg_left (zpow_le_zpow_right₀ (by norm_num) h) (Nat.cast_nonneg m)

/-- A size is a whole number of the units of a lower exponent. -/
theorem exists_size_eq {e f : Int} (h : e ≤ f) (n : Nat) : ∃ k, size n f = size k e := by
  obtain ⟨d, rfl⟩ := Int.le.dest h
  refine ⟨n * 2 ^ d, ?_⟩
  rw [size, size, zpow_add₀ (by norm_num), zpow_natCast]
  push_cast
  ring

/-- The sizes of a lower exponent are under those of normal significands. -/
theorem size_lt_of_lt {n : Nat} {e f : Int} (hn : n < 2 ^ 53) (h : f < e) :
    size n f < size (2 ^ 52) e := by
  calc size n f < size (2 * 2 ^ 52) f := size_lt_size.mpr hn
    _ = size (2 ^ 52) (f + 1) := size_double _ f
    _ ≤ size (2 ^ 52) e := size_mono _ h

/-- Significands that differ are a unit apart. -/
theorem unit_le_of_ne {k r : Nat} (h : k ≠ r) (e : Int) : size 1 e ≤ |size k e - size r e| := by
  rcases Nat.lt_or_gt_of_ne h with hlt | hgt
  · have hle := size_add k 1 e ▸ size_le_size (e := e).mpr (Nat.succ_le_of_lt hlt)
    rw [abs_sub_comm]
    exact le_abs.mpr (Or.inl (by linarith))
  · have hle := size_add r 1 e ▸ size_le_size (e := e).mpr (Nat.succ_le_of_lt hgt)
    exact le_abs.mpr (Or.inl (by linarith))

/-- A ratio cannot be near to two significands. -/
theorem unit_le_add_of_ne (q : ℚ) {k r : Nat} (h : k ≠ r) (e : Int) :
    size 1 e ≤ |q - size k e| + |q - size r e| := by
  have htriangle := abs_sub_le (size k e) q (size r e)
  rw [abs_sub_comm (size k e) q] at htriangle
  exact (unit_le_of_ne h e).trans htriangle

section Canonical

variable {m n : Nat} {e f : Int}

/-- A number of a lower exponent is smaller. -/
theorem Canonical.size_lt (hm : Canonical m e) (hn : Canonical n f) (h : f < e) :
    size n f < size m e := by
  have hleast := hn.least
  have hnormal : 2 ^ 52 ≤ m := hm.normal.resolve_right (by omega)
  calc size n f < size (2 ^ 52) e := size_lt_of_lt hn.lt h
    _ ≤ size m e := size_le_size.mpr hnormal

/-- After a number comes none before the next significand. -/
theorem Canonical.succ_le (hm : Canonical m e) (hn : Canonical n f) (h : size m e < size n f) :
    size (m + 1) e ≤ size n f := by
  have hef : e ≤ f := not_lt.mp fun hfe => absurd h (hm.size_lt hn hfe).not_gt
  obtain ⟨k, hk⟩ := exists_size_eq hef n
  rw [hk, size_lt_size] at h
  rw [hk, size_le_size]
  exact h

theorem Canonical.le_of_size_eq (hm : Canonical m e) (hn : Canonical n f)
    (h : size m e = size n f) : e ≤ f :=
  not_lt.mp fun hfe => (hm.size_lt hn hfe).ne h.symm

/-- A size belongs to one number. -/
theorem Canonical.eq_of_size_eq (hm : Canonical m e) (hn : Canonical n f)
    (h : size m e = size n f) : m = n ∧ e = f := by
  have hexponent : e = f := le_antisymm (hm.le_of_size_eq hn h) (hn.le_of_size_eq hm h.symm)
  subst hexponent
  exact ⟨le_antisymm (size_le_size.mp h.le) (size_le_size.mp h.ge), rfl⟩

end Canonical

/-! ## At most one number is nearest -/

section Nearest

variable {q : ℚ} {m n : Nat} {e f : Int}

/-- Two numbers that are equally near cannot both be even: the next significand of the lower one
would be odd and as near as the higher one. -/
theorem Nearest.not_size_lt (hm : Nearest q m e) (hn : Nearest q n f) :
    ¬size m e < size n f := by
  intro hlt
  have hle := hm.nearest n f hn.canonical
  have hge := hn.nearest m e hm.canonical
  have hsame : |q - size n f| = |q - size m e| := le_antisymm hge hle
  have heven : Even m := hm.even n f hn.canonical hlt.ne' hsame
  have heven' : Even n := hn.even m e hm.canonical hlt.ne hsame.symm
  have hsucc : Canonical (m + 1) e := by
    refine ⟨?_, hm.canonical.normal.imp_left fun h => by omega, hm.canonical.least,
      hm.canonical.greatest⟩
    have := hm.canonical.lt
    obtain ⟨k, rfl⟩ := heven
    omega
  have hnext : size (m + 1) e ≤ size n f := hm.canonical.succ_le hn.canonical hlt
  have hmiddle : q - size m e = size n f - q := by
    rcases abs_eq_abs.mp hsame with heq | heq
    · linarith
    · linarith
  have hnearer := hm.nearest (m + 1) e hsucc
  have hunit := size_one_pos e
  rw [size_add] at hnext hnearer
  have heq : size (m + 1) e = size n f := by
    rw [size_add]
    refine le_antisymm hnext ?_
    rw [abs_of_nonneg (by linarith : 0 ≤ q - size m e)] at hnearer
    rcases le_abs.mp hnearer with h | h
    · linarith
    · linarith
  obtain ⟨rfl, -⟩ := hsucc.eq_of_size_eq hn.canonical heq
  exact Nat.not_even_iff_odd.mpr heven.add_one heven'

theorem Nearest.unique (hm : Nearest q m e) (hn : Nearest q n f) : m = n ∧ e = f := by
  have hsize : size m e = size n f :=
    le_antisymm (not_lt.mp (hn.not_size_lt hm)) (not_lt.mp (hm.not_size_lt hn))
  exact hm.canonical.eq_of_size_eq hn.canonical hsize

end Nearest

/-! ## Rounding at an exponent -/

/-- A significand nearest to a ratio at an exponent that fits the ratio. -/
structure RoundsAt (q : ℚ) (r : Nat) (e : Int) : Prop where
  least : -1074 ≤ e
  upper : q < size (2 ^ 53) e
  lower : size (2 ^ 52) e ≤ q ∨ e = -1074
  near : 2 * |q - size r e| ≤ size 1 e
  even : 2 * |q - size r e| = size 1 e → Even r

namespace RoundsAt

variable {q : ℚ} {r : Nat} {e : Int}

theorem le_at (h : RoundsAt q r e) (k : Nat) : |q - size r e| ≤ |q - size k e| := by
  by_cases hk : k = r
  · rw [hk]
  · linarith [unit_le_add_of_ne q hk e, h.near]

theorem even_at (h : RoundsAt q r e) {k : Nat} (hk : k ≠ r)
    (heq : |q - size k e| = |q - size r e|) : Even r :=
  h.even (le_antisymm h.near (by linarith [unit_le_add_of_ne q hk e]))

/-- Numbers of lower exponents are further away. -/
theorem lt_of_lt (h : RoundsAt q r e) {n : Nat} {f : Int} (hn : Canonical n f) (hf : f < e) :
    |q - size r e| < |q - size n f| := by
  have hleast := hn.least
  have hover : size (2 ^ 52) e ≤ q := h.lower.resolve_right (by omega)
  have hunder := size_lt_of_lt hn.lt hf
  calc |q - size r e| ≤ |q - size (2 ^ 52) e| := h.le_at _
    _ = q - size (2 ^ 52) e := abs_of_nonneg (by linarith)
    _ < q - size n f := by linarith
    _ ≤ |q - size n f| := le_abs_self _

theorem le_of_canonical (h : RoundsAt q r e) {n : Nat} {f : Int} (hn : Canonical n f) :
    |q - size r e| ≤ |q - size n f| := by
  rcases le_or_gt e f with hef | hfe
  · obtain ⟨k, hk⟩ := exists_size_eq hef n
    rw [hk]
    exact h.le_at k
  · exact (h.lt_of_lt hn hfe).le

theorem even_of_canonical (h : RoundsAt q r e) {n : Nat} {f : Int} (hn : Canonical n f)
    (hne : size n f ≠ size r e) (heq : |q - size n f| = |q - size r e|) : Even r := by
  rcases le_or_gt e f with hef | hfe
  · obtain ⟨k, hk⟩ := exists_size_eq hef n
    rw [hk] at hne heq
    exact h.even_at (fun hkr => hne (congrArg (size · e) hkr)) heq
  · exact absurd heq (h.lt_of_lt hn hfe).ne'

theorem le_carry (h : RoundsAt q r e) : r ≤ 2 ^ 53 := by
  by_contra hlt
  have hsize := size_add (2 ^ 53) 1 e ▸ size_le_size (e := e).mpr (not_le.mp hlt)
  linarith [h.upper, h.near, size_one_pos e, neg_abs_le (q - size r e)]

theorem normal (h : RoundsAt q r e) : 2 ^ 52 ≤ r ∨ e = -1074 := by
  refine h.lower.imp_left fun hover => ?_
  by_contra hlt
  have hsize := size_add r 1 e ▸ size_le_size (e := e).mpr (not_le.mp hlt)
  linarith [h.near, size_one_pos e, le_abs_self (q - size r e)]

/-! ### Overflow -/

/-- The overflow is in the middle of two sizes. -/
theorem two_mul_overflow : 2 * overflow = size (2 ^ 53 - 1) 971 + size (2 ^ 53) 971 := by
  calc 2 * overflow = size (2 ^ 54 - 1 + (2 ^ 54 - 1)) 970 := by rw [size_add, two_mul, overflow]
    _ = size (2 * (2 ^ 53 - 1) + 2 * 2 ^ 53) 970 := by norm_num
    _ = size (2 ^ 53 - 1) (970 + 1) + size (2 ^ 53) (970 + 1) := by
        rw [size_add, size_double, size_double]

theorem below_of_lt (h : RoundsAt q r e) (he : e < 971) : q < overflow := by
  calc q < size (2 ^ 53) e := h.upper
    _ ≤ size (2 ^ 53) 970 := size_mono _ (by omega)
    _ ≤ overflow := size_le_size.mpr (by norm_num)

/-- A ratio is rounded to the next power of two exactly if it is halfway to it or further. -/
theorem lt_halfway_iff (h : RoundsAt q r e) :
    2 * q < size (2 ^ 53 - 1) e + size (2 ^ 53) e ↔ r ≠ 2 ^ 53 := by
  have hunit := size_one_pos e
  have hcarry : size (2 ^ 53) e = size (2 ^ 53 - 1) e + size 1 e :=
    size_add (2 ^ 53 - 1) 1 e
  have hlow := neg_abs_le (q - size r e)
  have hhigh := le_abs_self (q - size r e)
  have hnear := h.near
  constructor
  · rintro hlt rfl
    linarith
  · intro hne
    have hle : r ≤ 2 ^ 53 - 1 := by
      have := h.le_carry
      omega
    have hsize := size_le_size (e := e).mpr hle
    refine lt_of_le_of_ne (by linarith) fun heq => ?_
    -- exactly halfway the significand would be odd
    have hlast : size r e = size (2 ^ 53 - 1) e := le_antisymm hsize (by linarith)
    have hr : r = 2 ^ 53 - 1 := le_antisymm hle (size_le_size.mp hlast.ge)
    have heven : Even r := h.even (le_antisymm hnear (by linarith))
    rw [hr] at heven
    exact absurd heven (by decide)

theorem overflow_le_of_lt (h : RoundsAt q r e) (he : 971 < e) : overflow ≤ q := by
  calc overflow ≤ size (2 ^ 54) 970 := size_le_size.mpr (by norm_num)
    _ = size (2 ^ 52) 972 := (size_double (2 ^ 53) 970).trans (size_double (2 ^ 52) 971)
    _ ≤ size (2 ^ 52) e := size_mono _ (by omega)
    _ ≤ q := h.lower.resolve_right (by omega)

theorem overflow_le_of_carried (h : RoundsAt q (2 ^ 53) e) (he : 971 ≤ e) : overflow ≤ q := by
  rcases lt_or_eq_of_le he with hlt | rfl
  · exact h.overflow_le_of_lt hlt
  · have hnot : ¬2 * q < size (2 ^ 53 - 1) 971 + size (2 ^ 53) 971 := fun hlt =>
      h.lt_halfway_iff.mp hlt rfl
    linarith [two_mul_overflow]

/-! ### The number -/

theorem nearest (h : RoundsAt q r e) (hr : r ≠ 2 ^ 53) (he : e ≤ 971) : Nearest q r e where
  canonical := ⟨lt_of_le_of_ne h.le_carry hr, h.normal, h.least, he⟩
  below := by
    rcases lt_or_eq_of_le he with hlt | rfl
    · exact h.below_of_lt hlt
    · have hlt := h.lt_halfway_iff.mpr hr
      linarith [two_mul_overflow]
  nearest _ _ hn := h.le_of_canonical hn
  even _ _ hn := h.even_of_canonical hn

theorem nearest_carried (h : RoundsAt q (2 ^ 53) e) (he : e < 971) :
    Nearest q (2 ^ 52) (e + 1) := by
  have hcarry : size (2 ^ 53) e = size (2 ^ 52) (e + 1) := size_double (2 ^ 52) e
  refine ⟨⟨by decide, Or.inl le_rfl, by linarith [h.least], by omega⟩, h.below_of_lt he, ?_, ?_⟩
  · intro n f hn
    rw [← hcarry]
    exact h.le_of_canonical hn
  · intro n f hn hne heq
    decide

end RoundsAt

/-- What a ratio with a sign is rounded to. -/
inductive Rounds (q : ℚ) (negative : Bool) : Binary64 → Prop
  | finite {m : Nat} {e : Int} (h : Nearest q m e) : Rounds q negative (.finite negative m e)
  | infinite (h : overflow ≤ q) : Rounds q negative (.infinite negative)

theorem Rounds.eq_finite_iff {q : ℚ} {s t : Bool} {x : Binary64} {m : Nat} {e : Int}
    (h : Rounds q s x) : x = .finite t m e ↔ s = t ∧ Nearest q m e := by
  cases h with
  | @finite n f hnearest =>
      rw [Binary64.finite.injEq]
      constructor
      · rintro ⟨rfl, rfl, rfl⟩
        exact ⟨rfl, hnearest⟩
      · rintro ⟨rfl, hm⟩
        obtain ⟨rfl, rfl⟩ := hnearest.unique hm
        exact ⟨rfl, rfl, rfl⟩
  | infinite hoverflow =>
      constructor
      · intro h
        cases h
      · rintro ⟨-, hm⟩
        exact absurd hm.below (not_lt.mpr hoverflow)

/-! ## Ratios -/

section Quotient

variable (num : Nat) {den : Nat}

theorem ratio_sub_quotient (hden : 0 < den) :
    (num : ℚ) / den - (num / den : Nat) = (num % den : Nat) / den := by
  have hpos : (0 : ℚ) < den := Nat.cast_pos.mpr hden
  have hnum : (num : ℚ) = den * (num / den : Nat) + (num % den : Nat) := by
    exact_mod_cast (Nat.div_add_mod num den).symm
  rw [div_sub' hpos.ne', hnum, add_sub_cancel_left]

theorem abs_ratio_sub_quotient (hden : 0 < den) :
    |(num : ℚ) / den - (num / den : Nat)| = (num % den : Nat) / den := by
  rw [ratio_sub_quotient num hden, abs_of_nonneg (by positivity)]

theorem abs_ratio_sub_quotient_succ (hden : 0 < den) :
    |(num : ℚ) / den - (num / den + 1 : Nat)| = (den - (num % den : Nat)) / den := by
  have hpos : (0 : ℚ) < den := Nat.cast_pos.mpr hden
  have hlt : ((num % den : Nat) : ℚ) < den := Nat.cast_lt.mpr (Nat.mod_lt num hden)
  rw [Nat.cast_add, Nat.cast_one, ← sub_sub, ratio_sub_quotient num hden, abs_sub_comm,
    abs_of_nonneg]
  · rw [sub_div, div_self hpos.ne']
  · rw [sub_nonneg, div_le_one hpos]
    exact hlt.le

/-- A quotient is rounded by less than a half, or by a half to an even number. -/
theorem divideToEven_near (hden : 0 < den) :
    2 * |(num : ℚ) / den - divideToEven num den| ≤ 1 ∧
      (2 * |(num : ℚ) / den - divideToEven num den| = 1 → Even (divideToEven num den)) := by
  have hpos : (0 : ℚ) < den := Nat.cast_pos.mpr hden
  have hdown := abs_ratio_sub_quotient num hden
  have hup := abs_ratio_sub_quotient_succ num hden
  rcases lt_trichotomy (2 * (num % den)) den with hlt | heq | hgt
  · have hquotient : divideToEven num den = num / den := by simp [divideToEven, hlt]
    have hless : 2 * (((num % den : Nat) : ℚ) / den) < 1 := by
      rw [mul_div_assoc', div_lt_one hpos]
      exact_mod_cast hlt
    rw [hquotient, hdown]
    exact ⟨hless.le, fun h => absurd h hless.ne⟩
  · -- both neighbours are equally near
    have hhalf : 2 * (((num % den : Nat) : ℚ) / den) = 1 := by
      rw [mul_div_assoc', div_eq_one_iff_eq hpos.ne']
      exact_mod_cast heq
    have hhalf' : 2 * (((den : ℚ) - (num % den : Nat)) / den) = 1 := by
      rw [sub_div, div_self hpos.ne']
      linarith
    by_cases heven : num / den % 2 = 0
    · have hquotient : divideToEven num den = num / den := by simp [divideToEven, heq, heven]
      rw [hquotient, hdown]
      exact ⟨hhalf.le, fun _ => Nat.even_iff.mpr heven⟩
    · have hquotient : divideToEven num den = num / den + 1 := by
        simp [divideToEven, heq, heven]
      rw [hquotient, hup]
      exact ⟨hhalf'.le, fun _ => Nat.even_iff.mpr (by omega)⟩
  · have hquotient : divideToEven num den = num / den + 1 := by
      simp [divideToEven, hgt, hgt.not_gt]
    have hless : 2 * (((den : ℚ) - (num % den : Nat)) / den) < 1 := by
      have hcast : (den : ℚ) < 2 * (num % den : Nat) := by exact_mod_cast hgt
      rw [mul_div_assoc', div_lt_one hpos]
      linarith
    rw [hquotient, hup]
    exact ⟨hless.le, fun h => absurd h hless.ne⟩

end Quotient

theorem twoTo_eq (k : Nat) : twoTo k = 2 ^ k :=
  rfl

theorem scaleDown_pos (num : Nat) {den : Nat} (hden : 0 < den) (e : Int) :
    0 < (scaleDown num den e).2 := by
  cases e with
  | ofNat k => exact Nat.mul_pos hden (Nat.pow_pos (by decide))
  | negSucc k => exact hden

theorem scaleDown_ratio (num den : Nat) (e : Int) :
    ((scaleDown num den e).1 : ℚ) / (scaleDown num den e).2 * 2 ^ e = num / den := by
  cases e with
  | ofNat k =>
      rw [scaleDown, twoTo_eq, Int.ofNat_eq_natCast, zpow_natCast]
      push_cast
      field_simp
  | negSucc k =>
      rw [scaleDown, twoTo_eq, zpow_negSucc]
      push_cast
      field_simp

/-- Comparing the scaled terms compares the ratio with the power. -/
theorem scaleDown_le_iff (num : Nat) {den : Nat} (hden : 0 < den) (e : Int) :
    (scaleDown num den e).2 ≤ (scaleDown num den e).1 ↔ (2 : ℚ) ^ e ≤ num / den := by
  have hpos : (0 : ℚ) < (scaleDown num den e).2 := Nat.cast_pos.mpr (scaleDown_pos num hden e)
  rw [← scaleDown_ratio num den e, le_mul_iff_one_le_left (zpow_pos (by norm_num) e),
    one_le_div hpos, Nat.cast_le]

/-- The difference of the logarithms is the order of a ratio or one more. -/
theorem ratio_bounds {num den : Nat} (hnum : 0 < num) (hden : 0 < den) :
    (2 : ℚ) ^ ((num.log2 : Int) - den.log2 - 1) ≤ num / den ∧
      (num : ℚ) / den < 2 ^ ((num.log2 : Int) - den.log2 + 1) := by
  have hpos : (0 : ℚ) < den := Nat.cast_pos.mpr hden
  have hnumLow : (2 : ℚ) ^ num.log2 ≤ num := by exact_mod_cast Nat.log2_self_le hnum.ne'
  have hnumHigh : (num : ℚ) < 2 ^ (num.log2 + 1) := by exact_mod_cast Nat.lt_log2_self
  have hdenLow : (2 : ℚ) ^ den.log2 ≤ den := by exact_mod_cast Nat.log2_self_le hden.ne'
  have hdenHigh : (den : ℚ) < 2 ^ (den.log2 + 1) := by exact_mod_cast Nat.lt_log2_self
  constructor
  · rw [le_div_iff₀ hpos]
    calc (2 : ℚ) ^ ((num.log2 : Int) - den.log2 - 1) * den
        ≤ 2 ^ ((num.log2 : Int) - den.log2 - 1) * 2 ^ (den.log2 + 1) :=
          mul_le_mul_of_nonneg_left hdenHigh.le (zpow_nonneg (by norm_num) _)
      _ = 2 ^ num.log2 := by
          rw [← zpow_natCast, ← zpow_natCast, ← zpow_add₀ (by norm_num)]
          congr 1
          push_cast
          ring
      _ ≤ num := hnumLow
  · rw [div_lt_iff₀ hpos]
    calc (num : ℚ) < 2 ^ (num.log2 + 1) := hnumHigh
      _ = 2 ^ ((num.log2 : Int) - den.log2 + 1) * 2 ^ den.log2 := by
          rw [← zpow_natCast, ← zpow_natCast, ← zpow_add₀ (by norm_num)]
          congr 1
          push_cast
          ring
      _ ≤ 2 ^ ((num.log2 : Int) - den.log2 + 1) * den :=
          mul_le_mul_of_nonneg_left hdenLow (zpow_nonneg (by norm_num) _)

theorem binaryOrder_spec {num den : Nat} (hnum : 0 < num) (hden : 0 < den) :
    (2 : ℚ) ^ binaryOrder num den ≤ num / den ∧
      (num : ℚ) / den < 2 ^ (binaryOrder num den + 1) := by
  obtain ⟨hlow, hhigh⟩ := ratio_bounds hnum hden
  have hcompare := scaleDown_le_iff num hden ((num.log2 : Int) - den.log2)
  rw [binaryOrder]
  dsimp only
  split
  · rename_i hle
    exact ⟨hcompare.mp hle, hhigh⟩
  · rename_i hlt
    rw [sub_add_cancel]
    exact ⟨hlow, not_le.mp fun h => hlt (hcompare.mpr h)⟩

/-- The significand of a ratio is rounded at the exponent that its order calls for. -/
theorem roundsAt_ratio {num den : Nat} (hnum : 0 < num) (hden : 0 < den) :
    RoundsAt (num / den)
      (divideToEven (scaleDown num den (max (binaryOrder num den - 52) leastExponent)).1
        (scaleDown num den (max (binaryOrder num den - 52) leastExponent)).2)
      (max (binaryOrder num den - 52) leastExponent) := by
  obtain ⟨hlow, hhigh⟩ := binaryOrder_spec hnum hden
  have hleast : -1074 ≤ max (binaryOrder num den - 52) leastExponent := le_max_right _ _
  have horder : binaryOrder num den + 1 ≤ 53 + max (binaryOrder num den - 52) leastExponent := by
    have := le_max_left (binaryOrder num den - 52) leastExponent
    omega
  have hover : max (binaryOrder num den - 52) leastExponent = binaryOrder num den - 52 ∨
      max (binaryOrder num den - 52) leastExponent = -1074 := max_choice _ _
  generalize max (binaryOrder num den - 52) leastExponent = e at hleast horder hover ⊢
  have hunit : (0 : ℚ) < 2 ^ e := zpow_pos (by norm_num) e
  have hnear := divideToEven_near (scaleDown num den e).1 (scaleDown_pos num hden e)
  generalize divideToEven (scaleDown num den e).1 (scaleDown num den e).2 = r at hnear ⊢
  have hdistance : 2 * |(num : ℚ) / den - size r e| =
      2 * |((scaleDown num den e).1 : ℚ) / (scaleDown num den e).2 - r| * size 1 e := by
    rw [← scaleDown_ratio num den e, size, size, ← sub_mul, abs_mul, abs_of_pos hunit]
    push_cast
    ring
  refine ⟨hleast, ?_, ?_, ?_, ?_⟩
  · calc (num : ℚ) / den < 2 ^ (binaryOrder num den + 1) := hhigh
      _ ≤ 2 ^ (53 + e) := zpow_le_zpow_right₀ (by norm_num) horder
      _ = size (2 ^ 53) e := (size_two_pow 53 e).symm
  · refine hover.imp_left fun he => ?_
    calc size (2 ^ 52) e = 2 ^ (52 + e) := size_two_pow 52 e
      _ = 2 ^ binaryOrder num den := by rw [he, add_sub_cancel]
      _ ≤ num / den := hlow
  · rw [hdistance]
    exact mul_le_of_le_one_left (size_one_pos e).le hnear.1
  · intro heq
    rw [hdistance, mul_eq_right₀ (size_one_pos e).ne'] at heq
    exact hnear.2 heq

/-- What is under half of the least number is rounded to zero. -/
theorem rounds_zero {q : ℚ} (hq : 0 ≤ q) (h : 2 * q < size 1 leastExponent) (negative : Bool) :
    Rounds q negative (.finite negative 0 leastExponent) := by
  have hdistance : |q - size 0 leastExponent| = q := by
    rw [size_zero, sub_zero, abs_of_nonneg hq]
  have hunder : size 1 leastExponent ≤ size (2 ^ 53) leastExponent :=
    size_le_size.mpr (by norm_num)
  have hat : RoundsAt q 0 leastExponent := by
    refine ⟨le_rfl, by linarith, Or.inr rfl, ?_, ?_⟩
    · rw [hdistance]
      exact h.le
    · intro heq
      rw [hdistance] at heq
      exact absurd heq h.ne
  exact .finite (hat.nearest (by decide) (by decide))

theorem ofRatio_rounds (negative : Bool) (num : Nat) {den : Nat} (hden : 0 < den) :
    Rounds (num / den) negative (ofRatio negative num den) := by
  by_cases hzero : num = 0
  · rw [ofRatio, if_pos hzero, hzero, Nat.cast_zero, zero_div]
    exact rounds_zero le_rfl (by linarith [size_one_pos leastExponent]) negative
  · have hat := roundsAt_ratio (Nat.pos_of_ne_zero hzero) hden
    rw [ofRatio, if_neg hzero]
    dsimp only
    generalize max (binaryOrder num den - 52) leastExponent = e at hat ⊢
    generalize divideToEven (scaleDown num den e).1 (scaleDown num den e).2 = r at hat ⊢
    by_cases hr : r = 2 ^ 53
    · rw [twoTo_eq, twoTo_eq, if_pos hr]
      dsimp only
      subst hr
      split
      · rename_i hexponent
        exact .infinite (hat.overflow_le_of_carried (Int.le_of_lt_add_one hexponent))
      · rename_i hexponent
        exact .finite (hat.nearest_carried (by rw [greatestExponent] at hexponent; omega))
    · rw [twoTo_eq, if_neg hr]
      dsimp only
      split
      · rename_i hexponent
        exact .infinite (hat.overflow_le_of_lt hexponent)
      · rename_i hexponent
        exact .finite (hat.nearest hr (not_lt.mp hexponent))

/-! ## Decimal numbers -/

theorem tenTo_eq (k : Nat) : tenTo k = 10 ^ k := by
  rfl

/-- A number and the count of its decimal digits. -/
theorem digits_bounds {n : Nat} (hn : n ≠ 0) :
    (10 : ℚ) ^ (((Nat.toDigits 10 n).length : Int) - 1) ≤ n ∧
      (n : ℚ) < 10 ^ ((Nat.toDigits 10 n).length : Int) := by
  have hcount : 0 < (Nat.toDigits 10 n).length := Nat.length_toDigits_pos
  constructor
  · rw [← Nat.cast_pred hcount, zpow_natCast]
    by_cases hone : (Nat.toDigits 10 n).length = 1
    · rw [hone, Nat.sub_self, pow_zero]
      exact_mod_cast Nat.one_le_iff_ne_zero.mpr hn
    · have hle : ¬(Nat.toDigits 10 n).length ≤ (Nat.toDigits 10 n).length - 1 := by omega
      rw [Nat.length_toDigits_le_iff (by decide) (by omega), not_lt] at hle
      exact_mod_cast hle
  · rw [zpow_natCast]
    exact_mod_cast (Nat.length_toDigits_le_iff (by decide) hcount).mp le_rfl

/-- The bounds outside of which no power is computed are beyond the format. -/
theorem two_pow_lt_ten_pow : (2 : ℚ) ^ (1075 : Int) < 10 ^ (400 : Int) := by
  calc (2 : ℚ) ^ (1075 : Int) = (2 ^ (43 : Int)) ^ (25 : Int) := zpow_mul 2 43 25
    _ < (10 ^ (16 : Int)) ^ (25 : Int) :=
        zpow_lt_zpow_left₀ (by norm_num) (by norm_num) (by norm_num)
    _ = 10 ^ (400 : Int) := (zpow_mul 10 16 25).symm

theorem overflow_le_ten_pow : overflow ≤ 10 ^ (400 : Int) := by
  calc overflow ≤ size (2 ^ 54) 970 := size_le_size.mpr (by norm_num)
    _ = 2 ^ (1024 : Int) := size_two_pow 54 970
    _ ≤ 2 ^ (1075 : Int) := zpow_le_zpow_right₀ (by norm_num) (by norm_num)
    _ ≤ 10 ^ (400 : Int) := two_pow_lt_ten_pow.le

theorem lt_size_of_lt_ten_pow {q : ℚ} (h : q < 10 ^ (-400 : Int)) :
    2 * q < size 1 leastExponent := by
  have hinverse : (10 : ℚ) ^ (-400 : Int) < 2 ^ (-1075 : Int) := by
    rw [zpow_neg, zpow_neg]
    exact inv_strictAnti₀ (zpow_pos (by norm_num) _) two_pow_lt_ten_pow
  calc 2 * q < 2 * 2 ^ (-1075 : Int) := by linarith
    _ = 2 ^ (1 + -1075 : Int) := (zpow_one_add₀ (by norm_num) _).symm
    _ = size 1 leastExponent := (size_two_pow 0 leastExponent).symm

theorem ofDecimal_rounds (negative : Bool) (digits : Nat) (exponent : Int) :
    Rounds (digits * 10 ^ exponent) negative (ofDecimal negative digits exponent) := by
  by_cases hzero : digits = 0
  · rw [ofDecimal.eq_def, if_pos hzero, hzero, Nat.cast_zero, zero_mul]
    exact rounds_zero le_rfl (by linarith [size_one_pos leastExponent]) negative
  · obtain ⟨hlow, hhigh⟩ := digits_bounds hzero
    have hpower : (0 : ℚ) < 10 ^ exponent := zpow_pos (by norm_num) exponent
    rw [ofDecimal.eq_def, if_neg hzero]
    dsimp only
    generalize ((Nat.toDigits 10 digits).length : Int) = count at hlow hhigh ⊢
    split
    · rename_i hgreat
      refine .infinite ?_
      calc overflow ≤ 10 ^ (400 : Int) := overflow_le_ten_pow
        _ ≤ 10 ^ (count - 1 + exponent) := zpow_le_zpow_right₀ (by norm_num) (by omega)
        _ = 10 ^ (count - 1) * 10 ^ exponent := zpow_add₀ (by norm_num) _ _
        _ ≤ digits * 10 ^ exponent := mul_le_mul_of_nonneg_right hlow hpower.le
    · split
      · rename_i hsmall
        refine rounds_zero (by positivity) ?_ negative
        refine lt_size_of_lt_ten_pow ?_
        calc (digits : ℚ) * 10 ^ exponent < 10 ^ count * 10 ^ exponent :=
              mul_lt_mul_of_pos_right hhigh hpower
          _ = 10 ^ (count + exponent) := (zpow_add₀ (by norm_num) _ _).symm
          _ ≤ 10 ^ (-400 : Int) := zpow_le_zpow_right₀ (by norm_num) (by omega)
      · cases exponent with
        | ofNat k =>
            have hratio := ofRatio_rounds negative (digits * tenTo k) Nat.one_pos
            simpa [tenTo_eq] using hratio
        | negSucc k =>
            have hpos : 0 < tenTo (k + 1) := Nat.pow_pos (by decide)
            have hratio := ofRatio_rounds negative digits hpos
            rw [zpow_negSucc, ← div_eq_mul_inv]
            simpa [tenTo_eq] using hratio

/-- A decimal number is read as the number of the format that is nearest to it. -/
theorem ofDecimal_eq_finite_iff {s t : Bool} {digits m : Nat} {exponent e : Int} :
    ofDecimal s digits exponent = .finite t m e ↔
      s = t ∧ Nearest (digits * 10 ^ exponent) m e :=
  (ofDecimal_rounds s digits exponent).eq_finite_iff

end Binary64
end ClientForge
