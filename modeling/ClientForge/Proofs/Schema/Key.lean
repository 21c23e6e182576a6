import ClientForge.Diagnostic
import ClientForge.Proofs.Basics
import ClientForge.Proofs.Text.Letters
import ClientForge.Schema.Name
/-!
# Keys and dotted paths

The characters that the name of a member can have.  There is no dot among them, so the dotted form
of a chain of keys can be taken apart again (`dotted_inj`).
-/

namespace ClientForge

namespace SchemaName

/-- Nothing is dropped, or one line feed at the end. -/
theorem dropFinalLineFeed_eq_or (cs : List Char) :
    dropFinalLineFeed cs = cs ∨ cs = dropFinalLineFeed cs ++ ['\n'] := by
  fun_induction dropFinalLineFeed cs with
  | case1 => exact Or.inl rfl
  | case2 => exact Or.inr rfl
  | case3 c cs _ ih => exact ih.imp (congrArg (c :: ·)) (congrArg (c :: ·))

/-- Only a line feed can be dropped from the end. -/
theorem mem_dropFinalLineFeed_or_eq {c : Char} {cs : List Char} (h : c ∈ cs) :
    c ∈ dropFinalLineFeed cs ∨ c = '\n' := by
  rcases dropFinalLineFeed_eq_or cs with heq | heq
  · rw [heq]
    exact Or.inl h
  · rw [heq] at h
    exact (List.mem_append.mp h).imp_right List.mem_singleton.mp

/-- Besides a line feed, a class name has identifier characters only. -/
theorem isIdentifierChar_or_eq_of_isClassName {s : String} {c : Char} (h : isClassName s = true)
    (hc : c ∈ s.toList) : Text.isIdentifierChar c = true ∨ c = '\n' := by
  refine (mem_dropFinalLineFeed_or_eq hc).imp_left fun hmem => ?_
  exact Text.isIdentifierChar_of_isIdentifier h hmem

/-- Besides a line feed, a member name has identifier characters and dashes only. -/
theorem isMemberChar_or_eq_of_isMemberName {s : String} {c : Char} (h : isMemberName s = true)
    (hc : c ∈ s.toList) : isMemberChar c = true ∨ c = '\n' := by
  refine (mem_dropFinalLineFeed_or_eq hc).imp_left fun hmem => ?_
  have hform := (Bool.and_eq_true_iff.mp h).1
  generalize dropFinalLineFeed s.toList = cs at hform hmem
  cases cs with
  | nil => cases hmem
  | cons d rest =>
      obtain ⟨hstart, hrest⟩ := Bool.and_eq_true_iff.mp hform
      rcases List.mem_cons.mp hmem with rfl | hmem
      · exact Bool.or_eq_true_iff.mpr (Or.inl (Text.isIdentifierChar_of_isIdentifierStart hstart))
      · exact List.all_eq_true.mp hrest c hmem

/-- A member name has no dot. -/
theorem dot_not_mem_of_isMemberName {s : String} (h : isMemberName s = true) : '.' ∉ s.toList := by
  intro hdot
  have hchar := isMemberChar_or_eq_of_isMemberName h hdot
  revert hchar
  decide

end SchemaName

namespace KeyPath

/-- The characters of a dotted path are those of the keys with dots between them. -/
theorem toList_dotted (keys : KeyPath) :
    (KeyPath.dotted keys).toList = ['.'].intercalate (keys.map String.toList) := by
  fun_induction KeyPath.dotted keys with
  | case1 => rfl
  | case2 key => simp
  | case3 key rest hrest ih =>
      obtain ⟨next, more, rfl⟩ := List.exists_cons_of_ne_nil hrest
      rw [List.map_cons, List.map_cons, List.intercalate_cons_cons, String.toList_append,
        String.toList_append, ih]
      rfl

section Undotted

variable {keys keys' : KeyPath}

private theorem splitOn_dotted (hkeys : ∀ key ∈ keys, '.' ∉ key.toList) (hne : keys ≠ []) :
    (KeyPath.dotted keys).toList.splitOn '.' = keys.map String.toList := by
  rw [toList_dotted, List.splitOn_intercalate _ _ (by simpa using hne)]
  intro cs hcs
  obtain ⟨key, hkey, rfl⟩ := List.mem_map.mp hcs
  exact hkeys key hkey

private theorem eq_nil_of_dotted_eq_empty (hkeys : ∀ key ∈ keys, key ≠ "" ∧ '.' ∉ key.toList)
    (h : KeyPath.dotted keys = "") : keys = [] := by
  by_contra hne
  -- an empty text splits into one empty key
  have hsplit := splitOn_dotted (fun key hkey => (hkeys key hkey).2) hne
  rw [h] at hsplit
  obtain ⟨key, rest, rfl⟩ := List.exists_cons_of_ne_nil hne
  have hkey : key.toList = [] := (List.cons.inj hsplit).1.symm
  exact (hkeys key List.mem_cons_self).1 (String.toList_eq_nil_iff.mp hkey)

/-- Keys without dots, none of them empty, can be read off the dotted path. -/
theorem dotted_inj (hkeys : ∀ key ∈ keys, key ≠ "" ∧ '.' ∉ key.toList)
    (hkeys' : ∀ key ∈ keys', key ≠ "" ∧ '.' ∉ key.toList)
    (h : KeyPath.dotted keys = KeyPath.dotted keys') : keys = keys' := by
  by_cases hne : keys = []
  · subst hne
    exact (eq_nil_of_dotted_eq_empty hkeys' h.symm).symm
  · have hne' : keys' ≠ [] := by
      rintro rfl
      exact hne (eq_nil_of_dotted_eq_empty hkeys h)
    have hmap : keys.map String.toList = keys'.map String.toList := by
      rw [← splitOn_dotted (fun key hkey => (hkeys key hkey).2) hne,
        ← splitOn_dotted (fun key hkey => (hkeys' key hkey).2) hne', h]
    exact (List.map_injective_iff.mpr fun _ _ => String.toList_inj.mp) hmap

end Undotted

end KeyPath
end ClientForge
