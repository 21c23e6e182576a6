import ClientForge.Proofs.Basics
import ClientForge.Proofs.Text.Letters
import ClientForge.Text.Blank
import ClientForge.Text.Split
import Mathlib.Data.List.DropRight
/-!
# Cutting and trimming

What `cut`, `splitOn` and `trim` give, said without running them: a text is cut at its first
separator, its pieces are those of the library's `List.splitOn`, and trimming finds the one word
without blanks at its ends that has only blanks around it (`trim_eq_iff`).
-/

namespace ClientForge
namespace Text

/-! ## Cutting -/

theorem cut_cons_self (sep : Char) (cs : List Char) : cut sep (sep :: cs) = ([], some cs) := by
  rw [cut, if_pos rfl]

theorem cut_cons_of_ne {sep c : Char} (h : c ≠ sep) (cs : List Char) :
    cut sep (c :: cs) = (c :: (cut sep cs).1, (cut sep cs).2) := by
  rw [cut, if_neg h]

/-- There is nothing to cut at exactly if there is no separator. -/
theorem cut_eq_none_iff {sep : Char} {cs before : List Char} :
    cut sep cs = (before, none) ↔ before = cs ∧ sep ∉ cs := by
  induction cs generalizing before with
  | nil => simp [cut, eq_comm]
  | cons c cs ih =>
      by_cases hc : c = sep
      · subst hc
        simp [cut_cons_self]
      · rw [cut_cons_of_ne hc, List.mem_cons, not_or]
        constructor
        · intro h
          obtain ⟨rfl, hnone⟩ := Prod.mk.inj h
          obtain ⟨heq, hsep⟩ := ih.mp (Prod.ext rfl hnone)
          exact ⟨congrArg (c :: ·) heq, Ne.symm hc, hsep⟩
        · rintro ⟨rfl, -, hsep⟩
          rw [ih.mpr ⟨rfl, hsep⟩]

/-- A text is cut at its first separator. -/
theorem cut_eq_some_iff {sep : Char} {cs before after : List Char} :
    cut sep cs = (before, some after) ↔ cs = before ++ sep :: after ∧ sep ∉ before := by
  induction cs generalizing before with
  | nil => simp [cut]
  | cons c cs ih =>
      by_cases hc : c = sep
      · subst hc
        rw [cut_cons_self]
        constructor
        · intro h
          obtain ⟨rfl, hafter⟩ := Prod.mk.inj h
          rw [Option.some.inj hafter]
          exact ⟨rfl, List.not_mem_nil⟩
        · rintro ⟨heq, hsep⟩
          cases before with
          | nil => rw [(List.cons.inj heq).2]
          | cons b before =>
              rw [(List.cons.inj heq).1] at hsep
              exact absurd List.mem_cons_self hsep
      · rw [cut_cons_of_ne hc]
        constructor
        · intro h
          obtain ⟨rfl, hsome⟩ := Prod.mk.inj h
          obtain ⟨heq, hsep⟩ := ih.mp (Prod.ext rfl hsome)
          rw [List.cons_append, ← heq, List.mem_cons, not_or]
          exact ⟨rfl, Ne.symm hc, hsep⟩
        · rintro ⟨heq, hsep⟩
          cases before with
          | nil => exact absurd (List.cons.inj heq).1 hc
          | cons b before =>
              obtain ⟨rfl, hrest⟩ := List.cons.inj heq
              rw [List.mem_cons, not_or] at hsep
              rw [ih.mpr ⟨hrest, hsep.2⟩]

theorem cut_append {sep : Char} {before : List Char} (h : sep ∉ before) (after : List Char) :
    cut sep (before ++ sep :: after) = (before, some after) :=
  cut_eq_some_iff.mpr ⟨rfl, h⟩

/-- The first separator divides a text in one way. -/
theorem append_cons_inj {sep : Char} {before before' after after' : List Char} (h : sep ∉ before)
    (h' : sep ∉ before') (heq : before ++ sep :: after = before' ++ sep :: after') :
    before = before' ∧ after = after' := by
  have hcut := cut_append h after
  rw [heq, cut_append h', Prod.mk.injEq, Option.some.injEq] at hcut
  exact ⟨hcut.1.symm, hcut.2.symm⟩

/-- The pieces between separators are those of the library. -/
theorem splitOn_eq (sep : Char) (cs : List Char) : splitOn sep cs = cs.splitOn sep := by
  induction cs with
  | nil => rfl
  | cons c cs ih =>
      rw [List.splitOn, List.splitOnP_cons_eq_if_modifyHead, ← List.splitOn, splitOn, ih]
      by_cases hc : c = sep
      · simp [hc]
      · have hpieces : cs.splitOn sep ≠ [] := List.splitOnP_ne_nil _ cs
        obtain ⟨piece, pieces, heq⟩ := List.exists_cons_of_ne_nil hpieces
        simp [hc, heq]

/-! ## Trimming -/

/-- A word with nothing but blanks before and after it. -/
def Padded (word cs : List Char) : Prop :=
  ∃ left right, cs = left ++ word ++ right ∧ (∀ c ∈ left, isBlank c = true) ∧
    ∀ c ∈ right, isBlank c = true

/-- Neither end of a word is blank. -/
def Unpadded (word : List Char) : Prop :=
  (∀ c ∈ word.head?, isBlank c = false) ∧ ∀ c ∈ word.getLast?, isBlank c = false

theorem unpadded_of_forall {word : List Char} (h : ∀ c ∈ word, isBlank c = false) :
    Unpadded word :=
  ⟨fun c hc => h c (List.mem_of_head? hc), fun c hc => h c (List.mem_of_getLast? hc)⟩

theorem padded_self (word : List Char) : Padded word word :=
  ⟨[], [], by simp, by simp, by simp⟩

theorem trimEnd_eq_rdropWhile (cs : List Char) : trimEnd cs = cs.rdropWhile isBlank :=
  rfl

theorem padded_trim (cs : List Char) : Padded (trim cs) cs := by
  refine ⟨cs.takeWhile isBlank, (trimStart cs).rtakeWhile isBlank, ?_,
    fun c hc => List.mem_takeWhile_imp hc, fun c hc => List.mem_rtakeWhile_imp hc⟩
  rw [List.append_assoc, trim, trimEnd_eq_rdropWhile, List.rdropWhile_append_rtakeWhile, trimStart,
    List.takeWhile_append_dropWhile]

theorem unpadded_trim (cs : List Char) : Unpadded (trim cs) := by
  constructor
  · intro c hc
    -- what is left of the end begins as before
    obtain ⟨rest, hrest⟩ := List.rdropWhile_prefix isBlank (trimStart cs)
    have hhead : c ∈ (trimStart cs).head? := by
      rw [← hrest, ← trimEnd_eq_rdropWhile, ← trim, List.head?_append, Option.mem_def.mp hc]
      rfl
    exact of_mem_head?_dropWhile hhead
  · intro c hc
    obtain ⟨hne, rfl⟩ := List.mem_getLast?_eq_getLast hc
    exact Bool.eq_false_iff.mpr (List.rdropWhile_last_not isBlank (trimStart cs) hne)

theorem trim_of_padded {word cs : List Char} (h : Unpadded word) (hcs : Padded word cs) :
    trim cs = word := by
  obtain ⟨left, right, rfl, hleft, hright⟩ := hcs
  rw [List.append_assoc, trim, trimStart]
  cases word with
  | nil =>
      have hblank : ∀ c ∈ left ++ ([] ++ right), isBlank c = true :=
        List.forall_mem_append.mpr ⟨hleft, hright⟩
      rw [List.dropWhile_eq_nil_iff.mpr hblank]
      rfl
  | cons c rest =>
      have hhead : ∀ d ∈ (c :: rest ++ right).head?, isBlank d = false := h.1
      have hlast : ∀ d ∈ (c :: rest).reverse.head?, isBlank d = false := by
        rw [List.head?_reverse]
        exact h.2
      have hback : ∀ d ∈ right.reverse, isBlank d = true := fun d hd =>
        hright d (List.mem_reverse.mp hd)
      rw [dropWhile_append_of_head? hleft hhead, trimEnd, List.reverse_append,
        dropWhile_append_of_head? hback hlast, List.reverse_reverse]

/-- Trimming finds the word between the blanks. -/
theorem trim_eq_iff {word cs : List Char} : trim cs = word ↔ Unpadded word ∧ Padded word cs := by
  constructor
  · rintro rfl
    exact ⟨unpadded_trim cs, padded_trim cs⟩
  · rintro ⟨h, hcs⟩
    exact trim_of_padded h hcs

theorem not_all_isBlank_iff {cs : List Char} :
    ¬cs.all isBlank = true ↔ ∃ c ∈ cs, isBlank c = false := by
  simp

/-! ## Words without blanks -/

theorem isBlank_of_isIdentifierChar {c : Char} (h : isIdentifierChar c = true) :
    isBlank c = false := by
  have hrange : 48 ≤ c.toNat ∧ c.toNat ≤ 122 := by
    rcases Bool.or_eq_true_iff.mp h with hword | hunderscore
    · rcases isWordChar_iff.mp hword with hupper | hlower | hnumeral
      · have := isUpper_iff.mp hupper
        omega
      · have := isLower_iff.mp hlower
        omega
      · have := isNumeral_iff.mp hnumeral
        omega
    · rw [eq_of_beq hunderscore]
      decide
  simp only [isBlank, Bool.or_eq_false_iff, Bool.and_eq_false_iff, decide_eq_false_iff_not,
    beq_eq_false_iff_ne]
  omega

theorem unpadded_of_isIdentifier {word : List Char} (h : isIdentifier word = true) :
    Unpadded word :=
  unpadded_of_forall fun _ hc => isBlank_of_isIdentifierChar (isIdentifierChar_of_isIdentifier h hc)

theorem trim_of_isIdentifier {word cs : List Char} (h : isIdentifier word = true)
    (hcs : Padded word cs) : trim cs = word :=
  trim_of_padded (unpadded_of_isIdentifier h) hcs

/-- A character that is no part of identifiers is not among those of an identifier. -/
theorem not_mem_of_isIdentifier {word : List Char} {c : Char} (h : isIdentifier word = true)
    (hc : isIdentifierChar c = false) : c ∉ word := by
  intro hmem
  rw [isIdentifierChar_of_isIdentifier h hmem] at hc
  cases hc

/-- An identifier that may have blanks around it has no colon in it. -/
theorem colon_not_mem_of_padded {name cs : List Char} (h : isIdentifier name = true)
    (hcs : Padded name cs) : ':' ∉ cs := by
  obtain ⟨left, right, rfl, hleft, hright⟩ := hcs
  have hname := not_mem_of_isIdentifier h (by decide : isIdentifierChar ':' = false)
  have hblank : ∀ blanks : List Char, (∀ c ∈ blanks, isBlank c = true) → ':' ∉ blanks := by
    intro blanks hall hmem
    exact absurd (hall ':' hmem) (by decide)
  simp [hname, hblank left hleft, hblank right hright]

end Text
end ClientForge
