import ClientForge.Document.Json
import ClientForge.Proofs.Basics
/-!
# Keys that stand once

A key that is set in a mapping gets no second entry (`Value.nodup_keys_put`).  The entries of a JSON
object are set one after the other, so in what is read from a text no key stands twice
(`Json.keysOnce_of_parse`).
-/

namespace ClientForge
namespace Value

/-- A value that is no mapping, or a mapping in which no key stands twice. -/
def KeysOnce : Value → Prop
  | .map entries => (entries.map Prod.fst).Nodup
  | _ => True

/-! ## Setting a key -/

theorem mem_keys_put {entries : List (Value × Value)} {key value k : Value}
    (h : k ∈ (put entries key value).map Prod.fst) : k = key ∨ k ∈ entries.map Prod.fst := by
  induction entries with
  | nil => exact Or.inl (List.mem_singleton.mp h)
  | cons entry rest ih =>
      obtain ⟨own, v⟩ := entry
      rw [put] at h
      split at h
      · exact Or.inr h
      · rcases List.mem_cons.mp h with rfl | h
        · exact Or.inr List.mem_cons_self
        · exact (ih h).imp_right (List.mem_cons_of_mem _)

theorem nodup_keys_put {entries : List (Value × Value)} (h : (entries.map Prod.fst).Nodup)
    (key : String) (value : Value) : ((put entries (.str key) value).map Prod.fst).Nodup := by
  induction entries with
  | nil => exact List.nodup_singleton _
  | cons entry rest ih =>
      obtain ⟨own, v⟩ := entry
      obtain ⟨hown, hrest⟩ := List.nodup_cons.mp h
      rw [put]
      split
      · exact h
      · rename_i hother
        refine List.nodup_cons.mpr ⟨fun hmem => ?_, ih hrest⟩
        rcases mem_keys_put hmem with rfl | hmem
        · exact hother (beq_self_eq_true key)
        · exact hown hmem

end Value

namespace Json

/-! ## Objects -/

/-- Where no key stands twice among the entries found before, none does at the end. -/
theorem nodup_keys_members {fuel : Nat} {found entries : List (Value × Value)} {c after : Cursor}
    (h : members fuel found c = .ok (entries, after)) (hfound : (found.map Prod.fst).Nodup) :
    (entries.map Prod.fst).Nodup := by
  induction fuel generalizing found c with
  | zero => cases h
  | succ fuel ih =>
      rw [members] at h
      split at h
      · cases h
      · obtain ⟨⟨key, afterKey⟩, -, h⟩ := exceptBind_eq_ok_iff.mp h
        dsimp only at h
        split at h
        · cases h
        · obtain ⟨⟨v, afterValue⟩, -, h⟩ := exceptBind_eq_ok_iff.mp h
          -- the entries of the next round, or of the answer
          have hput := Value.nodup_keys_put hfound key v
          dsimp only at h
          split at h
          · cases h
            exact hput
          · exact ih h hput
          · cases h

theorem keysOnce_of_word? {c after : Cursor} {v : Value} (h : word? c = some (v, after)) :
    v.KeysOnce := by
  obtain ⟨⟨w, v'⟩, hfind, heq⟩ := Option.map_eq_some_iff.mp h
  cases heq
  have hmem := List.mem_of_find?_eq_some hfind
  have hwords : ∀ entry ∈ words, entry.2.KeysOnce := by
    simp [words, Value.KeysOnce]
  exact hwords _ hmem

theorem keysOnce_of_number {c after : Cursor} {v : Value} (h : number c = .ok (v, after)) :
    v.KeysOnce := by
  unfold number at h
  generalize (if c.rest.head? = some '-' then ['-'] else []) = sign at h
  dsimp only at h
  split at h
  · cases h
  · split at h
    · split at h
      · cases h
      · cases h
        exact trivial
    · cases h
      exact trivial

theorem keysOnce_of_value {fuel : Nat} {c after : Cursor} {v : Value}
    (h : value fuel c = .ok (v, after)) : v.KeysOnce := by
  cases fuel with
  | zero => cases h
  | succ fuel =>
      rw [value] at h
      split at h
      · cases h
      · obtain ⟨_, -, heq⟩ := exceptMap_eq_ok_iff.mp h
        cases heq
        exact trivial
      · dsimp only at h
        split at h
        · cases h
          exact List.nodup_nil
        · obtain ⟨_, hmembers, heq⟩ := exceptMap_eq_ok_iff.mp h
          cases heq
          exact nodup_keys_members hmembers List.nodup_nil
      · dsimp only at h
        split at h
        · cases h
          exact trivial
        · obtain ⟨_, -, heq⟩ := exceptMap_eq_ok_iff.mp h
          cases heq
          exact trivial
      · split at h
        · rename_i hword
          cases h
          exact keysOnce_of_word? hword
        · exact keysOnce_of_number h

/-- In the mapping that a text stands for no key stands twice. -/
theorem keysOnce_of_parse {cs : List Char} {v : Value} (h : parse cs = .ok v) : v.KeysOnce := by
  unfold parse at h
  split at h
  · cases h
  · split at h
    · cases h
    · rename_i hvalue
      dsimp only at h
      split at h
      · cases h
        exact keysOnce_of_value hvalue
      · cases h

end Json
end ClientForge
