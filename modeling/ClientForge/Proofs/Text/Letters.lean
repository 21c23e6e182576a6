import ClientForge.Text.Letters
/-!
# Letters as numbers

The classes of ASCII characters are ranges of code points, which turns most questions about them
into arithmetic.  Both case foldings stay inside the letters and digits.
-/

namespace ClientForge
namespace Text

theorem isUpper_iff {c : Char} : isUpper c = true ↔ 65 ≤ c.toNat ∧ c.toNat ≤ 90 := by
  rw [isUpper, Bool.and_eq_true, decide_eq_true_iff, decide_eq_true_iff, Char.le_def, Char.le_def,
    UInt32.le_iff_toNat_le, UInt32.le_iff_toNat_le]
  rfl

theorem isLower_iff {c : Char} : isLower c = true ↔ 97 ≤ c.toNat ∧ c.toNat ≤ 122 := by
  rw [isLower, Bool.and_eq_true, decide_eq_true_iff, decide_eq_true_iff, Char.le_def, Char.le_def,
    UInt32.le_iff_toNat_le, UInt32.le_iff_toNat_le]
  rfl

theorem isNumeral_iff {c : Char} : isNumeral c = true ↔ 48 ≤ c.toNat ∧ c.toNat ≤ 57 := by
  rw [isNumeral, Bool.and_eq_true, decide_eq_true_iff, decide_eq_true_iff, Char.le_def, Char.le_def,
    UInt32.le_iff_toNat_le, UInt32.le_iff_toNat_le]
  rfl

theorem isWordChar_iff {c : Char} :
    isWordChar c = true ↔ isUpper c = true ∨ isLower c = true ∨ isNumeral c = true := by
  rw [isWordChar, isLetter, Bool.or_eq_true, Bool.or_eq_true, or_assoc]

/-- The classes are those of the standard library. -/
theorem isLetter_eq_isAlpha (c : Char) : isLetter c = c.isAlpha := by
  have hupper : isUpper c = c.isUpper := (Bool.decide_and _ _).symm
  rw [isLetter, hupper]
  rfl

theorem isWordChar_eq_isAlphanum (c : Char) : isWordChar c = c.isAlphanum := by
  rw [isWordChar, isLetter_eq_isAlpha]
  rfl

theorem isNumeral_eq_isDigit (c : Char) : isNumeral c = c.isDigit := by
  rfl

/-- A code point below the surrogates is that of its character. -/
theorem toNat_ofNat_of_lt {n : Nat} (h : n < 55296) : (Char.ofNat n).toNat = n := by
  rw [Char.ofNat, dif_pos (Or.inl h)]
  rfl

theorem isLower_lowerChar {c : Char} (h : isUpper c = true) : isLower (lowerChar c) = true := by
  have hrange := isUpper_iff.mp h
  rw [lowerChar, if_pos h, isLower_iff, toNat_ofNat_of_lt (by omega)]
  omega

theorem lowerChar_eq_toLower (c : Char) : lowerChar c = c.toLower := by
  have hupper : isUpper c = true ↔ c.val ≥ 'A'.val ∧ c.val ≤ 'Z'.val := by
    rw [isUpper, Bool.and_eq_true, decide_eq_true_iff, decide_eq_true_iff]
    exact Iff.rfl
  by_cases h : isUpper c = true
  · have hrange := isUpper_iff.mp h
    have hcode : c.toLower.toNat = (c.val + 32).toNat :=
      congrArg Char.toNat (dif_pos (hupper.mp h))
    refine Char.toNat_inj.mp ?_
    rw [lowerChar, if_pos h, toNat_ofNat_of_lt (by omega), hcode, UInt32.toNat_add]
    show c.toNat + 32 = (c.toNat + 32) % 2 ^ 32
    omega
  · have hsame : c.toLower = c := dif_neg (mt hupper.mpr h)
    rw [lowerChar, if_neg h, hsame]

theorem isUpper_upperChar {c : Char} (h : isLower c = true) : isUpper (upperChar c) = true := by
  have hrange := isLower_iff.mp h
  rw [upperChar, if_pos h, isUpper_iff, toNat_ofNat_of_lt (by omega)]
  omega

theorem isUpper_eq_false_of_isLower {c : Char} (h : isLower c = true) : isUpper c = false := by
  have hrange := isLower_iff.mp h
  rw [← Bool.not_eq_true, isUpper_iff]
  omega

theorem isUpper_eq_false_of_isNumeral {c : Char} (h : isNumeral c = true) : isUpper c = false := by
  have hrange := isNumeral_iff.mp h
  rw [← Bool.not_eq_true, isUpper_iff]
  omega

theorem lowerChar_eq_self {c : Char} (h : isUpper c = false) : lowerChar c = c := by
  rw [lowerChar, h]
  rfl

/-- A small letter is the small form of its capital. -/
theorem lowerChar_upperChar {c : Char} (h : isLower c = true) : lowerChar (upperChar c) = c := by
  have hrange := isLower_iff.mp h
  rw [lowerChar, if_pos (isUpper_upperChar h), upperChar, if_pos h, toNat_ofNat_of_lt (by omega),
    Nat.sub_add_cancel (by omega), Char.ofNat_toNat]

/-- What a folding makes a capital is a capital or a digit. -/
theorem isUpper_upperChar_or_isNumeral {c : Char} (h : isWordChar c = true) :
    isUpper (upperChar c) = true ∨ isNumeral (upperChar c) = true := by
  by_cases hlower : isLower c = true
  · exact Or.inl (isUpper_upperChar hlower)
  · rw [upperChar, if_neg hlower]
    rcases isWordChar_iff.mp h with hupper | hlower' | hnumeral
    · exact Or.inl hupper
    · exact absurd hlower' hlower
    · exact Or.inr hnumeral

theorem isNumeral_eq_false_of_isLower {c : Char} (h : isLower c = true) :
    isNumeral c = false := by
  have hrange := isLower_iff.mp h
  rw [← Bool.not_eq_true, isNumeral_iff]
  omega

theorem isNumeral_eq_false_of_isUpper {c : Char} (h : isUpper c = true) :
    isNumeral c = false := by
  have hrange := isUpper_iff.mp h
  rw [← Bool.not_eq_true, isNumeral_iff]
  omega

/-- No capital is a digit, and digits have no capitals. -/
theorem isNumeral_upperChar (c : Char) : isNumeral (upperChar c) = isNumeral c := by
  by_cases hlower : isLower c = true
  · have hrange := isUpper_iff.mp (isUpper_upperChar hlower)
    rw [isNumeral_eq_false_of_isLower hlower, ← Bool.not_eq_true, isNumeral_iff]
    omega
  · rw [upperChar, if_neg hlower]

theorem isWordChar_lowerChar {c : Char} (h : isWordChar c = true) :
    isWordChar (lowerChar c) = true := by
  by_cases hupper : isUpper c = true
  · exact isWordChar_iff.mpr (Or.inr (Or.inl (isLower_lowerChar hupper)))
  · rw [lowerChar, if_neg hupper]
    exact h

theorem isWordChar_upperChar {c : Char} (h : isWordChar c = true) :
    isWordChar (upperChar c) = true := by
  by_cases hlower : isLower c = true
  · exact isWordChar_iff.mpr (Or.inl (isUpper_upperChar hlower))
  · rw [upperChar, if_neg hlower]
    exact h

theorem toNat_lt_of_isWordChar {c : Char} (h : isWordChar c = true) : c.toNat < 128 := by
  rw [isWordChar_iff, isUpper_iff, isLower_iff, isNumeral_iff] at h
  omega

theorem ne_underscore_of_isWordChar {c : Char} (h : isWordChar c = true) : c ≠ '_' := by
  rintro rfl
  revert h
  decide

theorem isIdentifierChar_of_isWordChar {c : Char} (h : isWordChar c = true) :
    isIdentifierChar c = true :=
  Bool.or_eq_true_iff.mpr (Or.inl h)

theorem isIdentifierChar_of_isIdentifierStart {c : Char} (h : isIdentifierStart c = true) :
    isIdentifierChar c = true := by
  rcases Bool.or_eq_true_iff.mp h with hletter | hunderscore
  · exact isIdentifierChar_of_isWordChar (Bool.or_eq_true_iff.mpr (Or.inl hletter))
  · exact Bool.or_eq_true_iff.mpr (Or.inr hunderscore)

/-- All characters of an identifier can continue one. -/
theorem isIdentifierChar_of_isIdentifier {cs : List Char} {c : Char} (h : isIdentifier cs = true)
    (hc : c ∈ cs) : isIdentifierChar c = true := by
  cases cs with
  | nil => cases hc
  | cons d rest =>
      obtain ⟨hstart, hrest⟩ := Bool.and_eq_true_iff.mp h
      rcases List.mem_cons.mp hc with rfl | hmem
      · exact isIdentifierChar_of_isIdentifierStart hstart
      · exact List.all_eq_true.mp hrest c hmem

end Text
end ClientForge
