import ClientForge.Naming.Words
import ClientForge.Proofs.Text.Letters
/-!
# Words

A name has words exactly if it has a letter or digit, and its words are made of nothing else.  A
word is a number, a run of capitals, or small letters with at most one capital before them
(`form_of_mem_wordsOf`).
-/

namespace ClientForge
namespace Naming

/-- A word of a name whose first character is a letter or digit begins there: the character is put
before the first word, which it joins, or stands alone. -/
theorem wordsOf_cons_of_isWordChar {c : Char} (cs : List Char) (hc : Text.isWordChar c = true) :
    (∃ word rest, wordsOf cs = word :: rest ∧ joins c word = true ∧
      wordsOf (c :: cs) = (c :: word) :: rest) ∨ wordsOf (c :: cs) = [c] :: wordsOf cs := by
  rw [wordsOf, if_pos hc]
  split
  · rename_i word rest _ hwords
    split
    · rename_i hjoins
      exact Or.inl ⟨word, rest, hwords, hjoins, rfl⟩
    · rw [hwords]
      exact Or.inr rfl
  · exact Or.inr rfl

/-- A letter or digit with none after it is a word. -/
theorem wordsOf_cons_of_head? {c : Char} {cs : List Char} (hc : Text.isWordChar c = true)
    (hcs : cs.head?.any Text.isWordChar = false) : wordsOf (c :: cs) = [c] :: wordsOf cs := by
  rw [wordsOf, if_pos hc, hcs]

/-- A letter or digit right before a word becomes part of it if it joins it. -/
theorem wordsOf_cons_of_eq_cons {c : Char} {cs word : List Char} {rest : List (List Char)}
    (hc : Text.isWordChar c = true) (hcs : cs.head?.any Text.isWordChar = true)
    (hwords : wordsOf cs = word :: rest) :
    wordsOf (c :: cs) =
      if joins c word then (c :: word) :: rest else [c] :: word :: rest := by
  rw [wordsOf, if_pos hc, hcs, hwords]

theorem wordsOf_cons_of_not_isWordChar {c : Char} {cs : List Char}
    (hc : Text.isWordChar c = false) : wordsOf (c :: cs) = wordsOf cs := by
  rw [wordsOf, hc]
  rfl

/-- A name without letters and digits is one without words. -/
theorem wordsOf_eq_nil_iff {cs : List Char} :
    wordsOf cs = [] ↔ ∀ c ∈ cs, Text.isWordChar c = false := by
  induction cs with
  | nil => simp [wordsOf]
  | cons c cs ih =>
      rw [List.forall_mem_cons]
      cases hc : Text.isWordChar c with
      | false => rw [wordsOf_cons_of_not_isWordChar hc, ih, eq_self_iff_true, true_and]
      | true =>
          rcases wordsOf_cons_of_isWordChar cs hc with ⟨_, _, -, -, hcons⟩ | hcons
          · simp [hcons]
          · simp [hcons]

/-! ## Forms of words -/

/-- The forms of words: a number, capitals, or small letters after at most one capital. -/
inductive WordForm : List Char → Prop
  | number {word : List Char} (nonempty : word ≠ [])
      (numerals : ∀ c ∈ word, Text.isNumeral c = true) : WordForm word
  | capitals {word : List Char} (nonempty : word ≠ [])
      (uppers : ∀ c ∈ word, Text.isUpper c = true) : WordForm word
  | lowers {first : Option Char} {rest : List Char} (upper : ∀ c ∈ first, Text.isUpper c = true)
      (nonempty : rest ≠ []) (lowers : ∀ c ∈ rest, Text.isLower c = true) :
      WordForm (first.toList ++ rest)

/-- One letter or digit is a word. -/
theorem wordForm_singleton {c : Char} (hc : Text.isWordChar c = true) : WordForm [c] := by
  rcases Text.isWordChar_iff.mp hc with hupper | hlower | hnumeral
  · exact WordForm.capitals (List.cons_ne_nil _ _) (List.forall_mem_singleton.mpr hupper)
  · exact @WordForm.lowers none [c] (by simp) (List.cons_ne_nil _ _)
      (List.forall_mem_singleton.mpr hlower)
  · exact WordForm.number (List.cons_ne_nil _ _) (List.forall_mem_singleton.mpr hnumeral)

theorem WordForm.ne_nil {word : List Char} (h : WordForm word) : word ≠ [] := by
  cases h with
  | number nonempty => exact nonempty
  | capitals nonempty => exact nonempty
  | lowers upper nonempty => exact List.append_ne_nil_of_right_ne_nil _ nonempty

theorem WordForm.isWordChar {word : List Char} (h : WordForm word) :
    ∀ c ∈ word, Text.isWordChar c = true := by
  intro c hc
  rw [Text.isWordChar_iff]
  cases h with
  | number nonempty numerals => exact Or.inr (Or.inr (numerals c hc))
  | capitals nonempty uppers => exact Or.inl (uppers c hc)
  | lowers upper nonempty lowers =>
      rcases List.mem_append.mp hc with hfirst | hrest
      · exact Or.inl (upper c (Option.mem_toList.mp hfirst))
      · exact Or.inr (Or.inl (lowers c hrest))

section Head

variable {c : Char} {cs : List Char}

/-- The characters after the first are all of one class. -/
theorem WordForm.cons_cases (h : WordForm (c :: cs)) :
    (Text.isNumeral c = true ∧ ∀ d ∈ cs, Text.isNumeral d = true) ∨
    (Text.isLower c = true ∧ ∀ d ∈ cs, Text.isLower d = true) ∨
    (Text.isUpper c = true ∧ ∀ d ∈ cs, Text.isLower d = true) ∨
    (Text.isUpper c = true ∧ ∀ d ∈ cs, Text.isUpper d = true) := by
  generalize hword : c :: cs = word at h
  cases h with
  | number nonempty numerals =>
      subst hword
      exact Or.inl (List.forall_mem_cons.mp numerals)
  | capitals nonempty uppers =>
      subst hword
      exact Or.inr (Or.inr (Or.inr (List.forall_mem_cons.mp uppers)))
  | @lowers first rest upper nonempty lowers =>
      cases first with
      | none =>
          rw [Option.toList_none, List.nil_append] at hword
          subst hword
          exact Or.inr (Or.inl (List.forall_mem_cons.mp lowers))
      | some u =>
          obtain ⟨rfl, rfl⟩ := List.cons.inj hword
          exact Or.inr (Or.inr (Or.inl ⟨upper c rfl, lowers⟩))

/-- A word that begins with a digit is a number. -/
theorem WordForm.isNumeral_of_head (h : WordForm (c :: cs)) (hc : Text.isNumeral c = true) :
    ∀ d ∈ c :: cs, Text.isNumeral d = true := by
  have hupper := Text.isUpper_eq_false_of_isNumeral hc
  rcases h.cons_cases with ⟨-, hcs⟩ | ⟨hlower, -⟩ | ⟨hcapital, -⟩ | ⟨hcapital, -⟩
  · exact List.forall_mem_cons.mpr ⟨hc, hcs⟩
  · rw [Text.isNumeral_eq_false_of_isLower hlower] at hc
    cases hc
  · cases hupper.symm.trans hcapital
  · cases hupper.symm.trans hcapital

/-- A word that begins with a small letter has small letters only. -/
theorem WordForm.isLower_of_head (h : WordForm (c :: cs)) (hc : Text.isLower c = true) :
    ∀ d ∈ c :: cs, Text.isLower d = true := by
  have hupper := Text.isUpper_eq_false_of_isLower hc
  rcases h.cons_cases with ⟨hnumeral, -⟩ | ⟨-, hcs⟩ | ⟨hcapital, -⟩ | ⟨hcapital, -⟩
  · rw [Text.isNumeral_eq_false_of_isLower hc] at hnumeral
    cases hnumeral
  · exact List.forall_mem_cons.mpr ⟨hc, hcs⟩
  · cases hupper.symm.trans hcapital
  · cases hupper.symm.trans hcapital

/-- A word that begins with a capital has capitals only, unless a small letter comes second. -/
theorem WordForm.isUpper_of_head (h : WordForm (c :: cs)) (hc : Text.isUpper c = true)
    (hnext : cs.head?.any Text.isLower = false) : ∀ d ∈ c :: cs, Text.isUpper d = true := by
  rcases h.cons_cases with ⟨hnumeral, -⟩ | ⟨hlower, -⟩ | ⟨-, hlowers⟩ | ⟨-, hcs⟩
  · rw [Text.isNumeral_eq_false_of_isUpper hc] at hnumeral
    cases hnumeral
  · rw [Text.isUpper_eq_false_of_isLower hlower] at hc
    cases hc
  · cases cs with
    | nil => exact List.forall_mem_singleton.mpr hc
    | cons d cs => exact absurd (hlowers d List.mem_cons_self) (Bool.eq_false_iff.mp hnext)
  · exact List.forall_mem_cons.mpr ⟨hc, hcs⟩

/-- A word is left if the first of its characters is taken away and another remains. -/
theorem WordForm.tail (h : WordForm (c :: cs)) (hne : cs ≠ []) : WordForm cs := by
  rcases h.cons_cases with ⟨-, hnumerals⟩ | ⟨-, hlowers⟩ | ⟨-, hlowers⟩ | ⟨-, huppers⟩
  · exact WordForm.number hne hnumerals
  · exact @WordForm.lowers none cs (by simp) hne hlowers
  · exact @WordForm.lowers none cs (by simp) hne hlowers
  · exact WordForm.capitals hne huppers

end Head

/-- What joins a word makes a word of it again. -/
theorem WordForm.cons {c : Char} {word : List Char} (h : WordForm word)
    (hjoins : joins c word = true) : WordForm (c :: word) := by
  cases word with
  | nil => cases hjoins
  | cons d rest =>
      simp only [joins, Bool.or_eq_true, Bool.and_eq_true] at hjoins
      -- a digit, a small letter, a capital before small letters, a capital before capitals
      rcases hjoins with ((⟨hc, hd⟩ | ⟨hc, hd⟩) | ⟨hc, hd⟩) | ⟨⟨hc, hd⟩, hrest⟩
      · exact WordForm.number (List.cons_ne_nil _ _)
          (List.forall_mem_cons.mpr ⟨hc, h.isNumeral_of_head hd⟩)
      · exact @WordForm.lowers none (c :: d :: rest) (by simp) (List.cons_ne_nil _ _)
          (List.forall_mem_cons.mpr ⟨hc, h.isLower_of_head hd⟩)
      · exact @WordForm.lowers (some c) (d :: rest) (by simpa using hc) (List.cons_ne_nil _ _)
          (h.isLower_of_head hd)
      · refine WordForm.capitals (List.cons_ne_nil _ _) ?_
        exact List.forall_mem_cons.mpr
          ⟨hc, List.forall_mem_cons.mpr ⟨hd, List.all_eq_true.mp hrest⟩⟩

/-- Every word of a name has one of the forms. -/
theorem form_of_mem_wordsOf {cs word : List Char} (h : word ∈ wordsOf cs) : WordForm word := by
  induction cs generalizing word with
  | nil => cases h
  | cons c cs ih =>
      cases hc : Text.isWordChar c with
      | false =>
          rw [wordsOf_cons_of_not_isWordChar hc] at h
          exact ih h
      | true =>
          rcases wordsOf_cons_of_isWordChar cs hc with ⟨first, rest, hwords, hjoins, hcons⟩ | hcons
          · rw [hcons] at h
            rcases List.mem_cons.mp h with rfl | hrest
            · exact (ih (hwords ▸ List.mem_cons_self)).cons hjoins
            · exact ih (hwords ▸ List.mem_cons_of_mem _ hrest)
          · rw [hcons] at h
            rcases List.mem_cons.mp h with rfl | hrest
            · exact wordForm_singleton hc
            · exact ih hrest

/-- Words are not empty and have letters and digits only. -/
theorem word_of_mem_wordsOf {cs word : List Char} (h : word ∈ wordsOf cs) :
    word ≠ [] ∧ ∀ c ∈ word, Text.isWordChar c = true :=
  ⟨(form_of_mem_wordsOf h).ne_nil, (form_of_mem_wordsOf h).isWordChar⟩

end Naming
end ClientForge
