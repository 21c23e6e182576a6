import ClientForge.Proofs.Text.Digit
import ClientForge.Text.Quoted
import ClientForge.Text.Split
import Mathlib.Data.List.Basic
/-!
# Texts on one line

A text without a line feed is one line, and such texts can be put together.  What is displayed in
quotes is one line whatever it says, since a line feed does not print and is written as an escape.
-/

namespace ClientForge
namespace Text

/-- No line feed in a text. -/
def OneLine (s : String) : Prop :=
  '\n' ∉ s.toList

instance (s : String) : Decidable (OneLine s) :=
  inferInstanceAs (Decidable ('\n' ∉ s.toList))

theorem oneLine_append_iff {s t : String} : OneLine (s ++ t) ↔ OneLine s ∧ OneLine t := by
  rw [OneLine, String.toList_append, List.mem_append, not_or]
  rfl

theorem OneLine.append {s t : String} (hs : OneLine s) (ht : OneLine t) : OneLine (s ++ t) :=
  oneLine_append_iff.mpr ⟨hs, ht⟩

/-- A text is one line if its characters are of a class without the line feed. -/
theorem oneLine_of_forall {p : Char → Bool} {s : String} (hp : p '\n' = false)
    (h : ∀ c ∈ s.toList, p c = true) : OneLine s := by
  intro hmem
  rw [h '\n' hmem] at hp
  cases hp

theorem oneLine_join {sep : String} {texts : List String} (hsep : OneLine sep)
    (h : ∀ text ∈ texts, OneLine text) : OneLine (join sep texts) := by
  fun_induction join sep texts with
  | case1 => exact List.not_mem_nil
  | case2 text => exact h text List.mem_cons_self
  | case3 text rest _ ih =>
      rw [List.forall_mem_cons] at h
      exact (h.1.append hsep).append (ih h.2)

theorem oneLine_repeated {s : String} (h : OneLine s) (n : Nat) : OneLine (repeated s n) := by
  induction n with
  | zero => exact List.not_mem_nil
  | succ n ih => exact h.append ih

/-! ## Escapes -/

theorem isWordChar_of_mem_hex {width n : Nat} {c : Char} (h : c ∈ hex width n) :
    isWordChar c = true := by
  rcases List.mem_append.mp h with hzero | hdigit
  · rw [List.eq_of_mem_replicate hzero]
    decide
  · exact isWordChar_of_mem_toDigits (by omega) (by omega) hdigit

/-- A line feed does not print, so it is escaped, and escapes are letters and digits after a
backslash. -/
theorem feed_not_mem_escapeChar (c : Char) : '\n' ∉ escapeChar c := by
  have hhex : ∀ width, '\n' ∉ hex width c.toNat := by
    intro width hmem
    exact absurd (isWordChar_of_mem_hex hmem) (by decide)
  unfold escapeChar
  split
  · decide
  · split
    · rename_i hprints
      rw [List.mem_singleton]
      rintro rfl
      exact absurd hprints (by decide)
    · repeat' split
      · decide
      · decide
      · decide
      · simp [hhex]
      · simp [hhex]
      · simp [hhex]

theorem feed_not_mem_flatMap_escapeChar (cs : List Char) : '\n' ∉ cs.flatMap escapeChar := by
  intro hmem
  obtain ⟨c, -, hc⟩ := List.mem_flatMap.mp hmem
  exact feed_not_mem_escapeChar c hc

theorem displayQuote_ne_feed (cs : List Char) : displayQuote cs ≠ '\n' := by
  unfold displayQuote
  split
  · decide
  · decide

theorem feed_not_mem_displayBody {quote : Char} (hquote : quote ≠ '\n') (cs : List Char) :
    '\n' ∉ displayBody quote cs := by
  intro hmem
  obtain ⟨c, -, hc⟩ := List.mem_flatMap.mp hmem
  split at hc
  · rename_i heq
    rcases List.mem_pair.mp hc with hback | hself
    · cases hback
    · exact hquote (heq ▸ hself.symm)
  · exact feed_not_mem_escapeChar c hc

/-- A displayed text is one line. -/
theorem oneLine_displayed (s : String) : OneLine (displayed s) := by
  have hquote := displayQuote_ne_feed s.toList
  rw [OneLine, displayed, String.toList_ofList]
  simp [hquote.symm, feed_not_mem_displayBody hquote]

end Text
end ClientForge
