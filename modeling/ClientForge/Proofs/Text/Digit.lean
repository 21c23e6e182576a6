import ClientForge.Decimal.Shortest
import ClientForge.Proofs.Text.Letters
import ClientForge.Text.Digit
/-!
# Digits of numbers

The characters that numbers are written with: letters and digits for whole numbers in any base up
to sixteen, and a point and signs besides for the others.  Of the many digits of Unicode, those of
ASCII are the ten usual ones (`isDigit_eq_isNumeral`).
-/

namespace ClientForge
namespace Text

/-- Every digit of a number is the character of a number below the base. -/
theorem exists_digitChar_of_mem_toDigits {base : Nat} (hbase : 1 < base) {n : Nat} {c : Char}
    (h : c ∈ Nat.toDigits base n) : ∃ d, d < base ∧ c = d.digitChar := by
  induction n using Nat.strongRecOn with
  | ind n ih =>
      by_cases hn : n < base
      · rw [Nat.toDigits_of_lt_base hn, List.mem_singleton] at h
        exact ⟨n, hn, h⟩
      · rw [Nat.toDigits_of_base_le hbase (by omega)] at h
        rcases List.mem_append.mp h with hfront | hlast
        · exact ih (n / base) (Nat.div_lt_self (by omega) hbase) hfront
        · exact ⟨n % base, Nat.mod_lt n (by omega), List.mem_singleton.mp hlast⟩

/-- Digits are letters or digits. -/
theorem isWordChar_of_mem_toDigits {base : Nat} (hbase : 1 < base) (hle : base ≤ 16) {n : Nat}
    {c : Char} (h : c ∈ Nat.toDigits base n) : isWordChar c = true := by
  have hdigits : ∀ d < 16, isWordChar (Nat.digitChar d) = true := by decide
  obtain ⟨d, hd, rfl⟩ := exists_digitChar_of_mem_toDigits hbase h
  exact hdigits d (by omega)

/-- A character that numbers are written with. -/
def isNumberChar (c : Char) : Bool :=
  isWordChar c || c == '.' || c == '-' || c == '+'

theorem isNumberChar_of_isWordChar {c : Char} (h : isWordChar c = true) :
    isNumberChar c = true := by
  simp [isNumberChar, h]

theorem isNumberChar_of_mem_toDigits {n : Nat} {c : Char} (h : c ∈ Nat.toDigits 10 n) :
    isNumberChar c = true :=
  isNumberChar_of_isWordChar (isWordChar_of_mem_toDigits (by omega) (by omega) h)

/-- Whole numbers, with their sign. -/
theorem isNumberChar_of_mem_toString {n : Int} {c : Char} (h : c ∈ (toString n).toList) :
    isNumberChar c = true := by
  have hnatural : ∀ k : Nat, ∀ c ∈ k.repr.toList, isNumberChar c = true := by
    intro k c hc
    rw [Nat.repr_eq_ofList_toDigits, String.toList_ofList] at hc
    exact isNumberChar_of_mem_toDigits hc
  change c ∈ n.repr.toList at h
  rw [Int.repr_eq_if] at h
  split at h
  · exact hnatural _ c h
  · rw [String.toList_append] at h
    rcases List.mem_append.mp h with hsign | hdigits
    · exact List.all_eq_true.mp (by decide) c hsign
    · exact hnatural _ c hdigits

theorem isNumberChar_of_mem_replicate {n : Nat} {c : Char} (h : c ∈ List.replicate n '0') :
    isNumberChar c = true := by
  rw [List.eq_of_mem_replicate h]
  decide

/-- The tables of digits, as ranges of code points. -/
theorem isDigit_iff {c : Char} : isDigit c = true ↔
    (∃ z ∈ decimalZeros, z ≤ c.toNat ∧ c.toNat ≤ z + 9) ∨
      ∃ range ∈ otherDigits, range.1 ≤ c.toNat ∧ c.toNat ≤ range.2 := by
  simp [isDigit, decimalValue?, List.any_eq_true]

/-- Among the ASCII characters there are no digits but the usual ones. -/
theorem isDigit_eq_isNumeral {c : Char} (h : c.toNat < 128) : isDigit c = isNumeral c := by
  have hzeros : ∀ z ∈ decimalZeros, z = 48 ∨ 128 ≤ z := by decide
  have hothers : ∀ range ∈ otherDigits, 128 ≤ range.1 := by decide
  rw [Bool.eq_iff_iff, isDigit_iff, isNumeral_iff]
  constructor
  · rintro (⟨z, hz, hlow, hhigh⟩ | ⟨range, hrange, hlow, -⟩)
    · have hzero := hzeros z hz
      omega
    · have hother := hothers range hrange
      omega
  · intro hrange
    exact Or.inl ⟨48, by decide, by omega⟩

end Text

namespace Binary64

open Text

/-- The texts of exponents. -/
theorem isNumberChar_of_mem_exponentText {e : Int} {c : Char} (h : c ∈ (exponentText e).toList) :
    isNumberChar c = true := by
  have hsign : ∀ c ∈ (if e < 0 then "e-" else "e+").toList, isNumberChar c = true := by
    split
    · exact List.all_eq_true.mp (by decide)
    · exact List.all_eq_true.mp (by decide)
  rw [exponentText, String.toList_append, String.toList_ofList] at h
  rcases List.mem_append.mp h with hfront | hdigits
  · exact hsign c hfront
  · rcases List.mem_append.mp hdigits with hzero | hdigit
    · exact isNumberChar_of_mem_replicate hzero
    · exact isNumberChar_of_mem_toDigits hdigit

/-- The texts of decimals. -/
theorem isNumberChar_of_mem_text {d : Decimal} {c : Char} (h : c ∈ d.text.toList) :
    isNumberChar c = true := by
  have hdot : isNumberChar '.' = true := rfl
  have hzero : isNumberChar '0' = true := rfl
  have hdigits : ∀ x ∈ Nat.toDigits 10 d.digits, isNumberChar x = true :=
    fun x hx => isNumberChar_of_mem_toDigits hx
  have htake : ∀ n, ∀ x ∈ (Nat.toDigits 10 d.digits).take n, isNumberChar x = true :=
    fun n x hx => hdigits x (List.mem_of_mem_take hx)
  have hdrop : ∀ n, ∀ x ∈ (Nat.toDigits 10 d.digits).drop n, isNumberChar x = true :=
    fun n x hx => hdigits x (List.mem_of_mem_drop hx)
  have hzeros : ∀ n, ∀ x ∈ List.replicate n '0', isNumberChar x = true :=
    fun n x hx => isNumberChar_of_mem_replicate hx
  revert c
  change ∀ c ∈ d.text.toList, isNumberChar c = true
  unfold Decimal.text
  dsimp only
  split
  · rw [String.toList_append, String.toList_ofList, List.forall_mem_append, List.forall_mem_append]
    refine ⟨⟨htake 1, ?_⟩, fun x hx => isNumberChar_of_mem_exponentText hx⟩
    split
    · simp
    · exact List.forall_mem_cons.mpr ⟨hdot, hdrop 1⟩
  · split
    · rw [String.toList_ofList, List.cons_append, List.cons_append, List.forall_mem_cons,
        List.forall_mem_cons, List.forall_mem_append]
      exact ⟨hzero, hdot, hzeros _, hdigits⟩
    · rw [String.toList_ofList, List.forall_mem_append, List.forall_mem_append,
        List.forall_mem_cons]
      refine ⟨⟨htake _, hzeros _⟩, hdot, ?_⟩
      split
      · simp [hzero]
      · exact hdrop _

/-- The texts of finite numbers. -/
theorem isNumberChar_of_mem_render_finite {specials : SpecialTexts} {negative : Bool}
    {significand : Nat} {exponent : Int} {c : Char}
    (h : c ∈ ((finite negative significand exponent).render specials).toList) :
    isNumberChar c = true := by
  have hsign : ∀ c ∈ (if negative then "-" else "").toList, isNumberChar c = true := by
    cases negative with
    | false => exact List.all_eq_true.mp (by decide)
    | true => exact List.all_eq_true.mp (by decide)
  rw [render, String.toList_append] at h
  rcases List.mem_append.mp h with hfront | htext
  · exact hsign c hfront
  · exact isNumberChar_of_mem_text htext

end Binary64
end ClientForge
