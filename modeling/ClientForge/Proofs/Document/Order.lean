import ClientForge.Document.Value
import ClientForge.Proofs.Basics
import Mathlib.Data.List.Zip
/-!
# Values in another order

Mappings keep the order of their entries.  `Value.Reordered` relates values that differ in nothing
but that order, at any depth.  A look-up finds related values in both (`EntriesReordered.field`),
and where the value is null or text, it finds the same one.

The relation speaks of the values under a key and not of positions.  In a mapping in which no key
stands twice, this is every order of its entries (`Reordered.of_perm_of_forall₂`).
-/

namespace ClientForge
namespace Value

/-- Values that differ in the order of keys inside their mappings, at any depth: the same keys
stand in both mappings, and the values under a key differ in that way again. -/
inductive Reordered : Value → Value → Prop
  | same (v : Value) : Reordered v v
  | list {items items' : List Value} (length : items.length = items'.length)
      (values : ∀ v v', (v, v') ∈ items.zip items' → Reordered v v') :
      Reordered (.list items) (.list items')
  | map {entries entries' : List (Value × Value)}
      (keys : (entries.map Prod.fst).Perm (entries'.map Prod.fst))
      (values : ∀ key v v', (key, v) ∈ entries → (key, v') ∈ entries' → Reordered v v') :
      Reordered (.map entries) (.map entries')

/-- The entries of two mappings that differ in the order of keys. -/
structure EntriesReordered (entries entries' : List (Value × Value)) : Prop where
  keys : (entries.map Prod.fst).Perm (entries'.map Prod.fst)
  values : ∀ key v v', (key, v) ∈ entries → (key, v') ∈ entries' → Reordered v v'

namespace Reordered

theorem symm {v v' : Value} (h : Reordered v v') : Reordered v' v := by
  induction h with
  | same v => exact same v
  | list length values ih =>
      refine list length.symm fun v v' hmem => ih v' v ?_
      rw [← List.zip_swap]
      exact List.mem_map.mpr ⟨(v, v'), hmem, rfl⟩
  | map keys values ih => exact map keys.symm fun key v v' hv hv' => ih key v' v hv' hv

/-- Where no key stands twice, entries may be reordered one by one and then take any order. -/
theorem of_perm_of_forall₂ {entries mid entries' : List (Value × Value)}
    (hnodup : (entries.map Prod.fst).Nodup) (hperm : mid.Perm entries')
    (hmatch : List.Forall₂ (fun e e' => e.1 = e'.1 ∧ Reordered e.2 e'.2) entries mid) :
    Reordered (.map entries) (.map entries') := by
  have hkeys : entries.map Prod.fst = mid.map Prod.fst :=
    map_eq_map_of_forall₂ hmatch fun _ _ h => h.1
  refine map (hkeys ▸ hperm.map Prod.fst) ?_
  intro key v v' hv hv'
  obtain ⟨⟨key', w⟩, hw, hkey, hvalue⟩ := exists_right_of_forall₂ hmatch hv
  -- the partner of the entry has its key, and no other entry has
  have heq : ((key', w) : Value × Value) = (key, v') :=
    List.inj_on_of_nodup_map (hkeys ▸ hnodup) hw (hperm.mem_iff.mpr hv') hkey.symm
  cases heq
  exact hvalue

/-- Null and text have no order to lose. -/
theorem eq_of_null_or_str {v v' : Value} (h : Reordered v v')
    (hv : v = .null ∨ ∃ s, v = .str s) : v' = v := by
  rcases hv with rfl | ⟨s, rfl⟩
  · cases h
    rfl
  · cases h
    rfl

theorem eq_of_str {s : String} {v' : Value} (h : Reordered (.str s) v') : v' = .str s :=
  h.eq_of_null_or_str (Or.inr ⟨s, rfl⟩)

theorem eq_of_bool {b : Bool} {v' : Value} (h : Reordered (.bool b) v') : v' = .bool b := by
  cases h
  rfl

theorem isTruthy_eq {v v' : Value} (h : Reordered v v') : v'.isTruthy = v.isTruthy := by
  have hempty : ∀ {α : Type} {as bs : List α}, as.length = bs.length → bs.isEmpty = as.isEmpty := by
    intro α as bs hlength
    rw [Bool.eq_iff_iff, List.isEmpty_iff_length_eq_zero, List.isEmpty_iff_length_eq_zero, hlength]
  cases h with
  | same v => rfl
  | list length values => simp only [isTruthy, hempty length]
  | map keys values =>
      have hlength := keys.length_eq
      rw [List.length_map, List.length_map] at hlength
      simp only [isTruthy, hempty hlength]

end Reordered

/-! ## Look-ups -/

theorem mem_of_lookup? {key : String} {entries : List (Value × Value)} {v : Value}
    (h : lookup? key entries = some v) : (.str key, v) ∈ entries := by
  induction entries with
  | nil => cases h
  | cons entry rest ih =>
      obtain ⟨k, w⟩ := entry
      cases k with
      | str s =>
          rw [lookup?] at h
          split at h
          · rename_i hs
            cases h
            rw [hs]
            exact List.mem_cons_self
          · exact List.mem_cons_of_mem _ (ih h)
      | _ => exact List.mem_cons_of_mem _ (ih h)

theorem lookup?_cons_of_ne {key : String} {k : Value} (h : k ≠ .str key) (v : Value)
    (rest : List (Value × Value)) : lookup? key ((k, v) :: rest) = lookup? key rest := by
  cases k with
  | str s => exact if_neg fun hs => h (congrArg Value.str hs)
  | _ => rfl

theorem lookup?_eq_none_iff {key : String} {entries : List (Value × Value)} :
    lookup? key entries = none ↔ Value.str key ∉ entries.map Prod.fst := by
  induction entries with
  | nil => simp [lookup?]
  | cons entry rest ih =>
      obtain ⟨k, w⟩ := entry
      cases k with
      | str s =>
          by_cases hs : s = key
          · simp [lookup?, hs]
          · simp [lookup?, hs, Ne.symm hs, ih]
      | _ => simp [lookup?, ih]

section Related

variable {R : Value → Value → Prop} {key : String} {entries entries' : List (Value × Value)}

/-- A key has related values in both mappings, or stands in neither. -/
theorem getD_lookup?_related {default : Value} (hdefault : R default default)
    (hkeys : (entries.map Prod.fst).Perm (entries'.map Prod.fst))
    (hvalues : ∀ v v', (.str key, v) ∈ entries → (.str key, v') ∈ entries' → R v v') :
    R ((lookup? key entries).getD default) ((lookup? key entries').getD default) := by
  have hnone : lookup? key entries = none ↔ lookup? key entries' = none := by
    rw [lookup?_eq_none_iff, lookup?_eq_none_iff, hkeys.mem_iff]
  cases hlookup : lookup? key entries with
  | none =>
      rw [hnone.mp hlookup]
      exact hdefault
  | some v =>
      cases hlookup' : lookup? key entries' with
      | none =>
          rw [hnone.mpr hlookup'] at hlookup
          cases hlookup
      | some v' => exact hvalues v v' (mem_of_lookup? hlookup) (mem_of_lookup? hlookup')

theorem field_related (hnull : R .null .null)
    (hkeys : (entries.map Prod.fst).Perm (entries'.map Prod.fst))
    (hvalues : ∀ v v', (.str key, v) ∈ entries → (.str key, v') ∈ entries' → R v v') :
    R (field key entries) (field key entries') :=
  getD_lookup?_related hnull hkeys hvalues

end Related

theorem EntriesReordered.field {entries entries' : List (Value × Value)}
    (h : EntriesReordered entries entries') (key : String) :
    Reordered (Value.field key entries) (Value.field key entries') :=
  field_related (Reordered.same _) h.keys (h.values (.str key))

end Value
end ClientForge
