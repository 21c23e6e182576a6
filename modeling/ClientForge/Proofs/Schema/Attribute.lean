import ClientForge.Proofs.Schema.Lineage
/-!
# Outcomes of single attributes

When the attributes of a node can be read, one by one: the class name and the URL of the root, and
the method and the parameters of an action.  The conditions are about the document alone.  Path
parameters can be collected exactly if the slots of one name have one type
(`exists_collectPathParams_iff`), and then there is one for each distinct slot
(`collectPathParams_eq`).  The declared parameters stand beside them exactly if all names differ
(`checkOrigins_eq_ok_iff`).
-/

namespace ClientForge
namespace Schema

/-! ## The root -/

/-- The values that the class name is chosen from, in order. -/
def classNames (asked : Option String) (own : Value) : List Value :=
  [(asked.map Value.str).getD .null, own, .str "XSClient"]

theorem find?_classNames (asked : Option String) (own : Value) :
    (classNames asked own).find? Value.isTruthy = some (chooseClassName asked own) := by
  have hown : [own, Value.str "XSClient"].find? Value.isTruthy =
      some (if own.isTruthy then own else .str "XSClient") := by
    have hdefault : (Value.str "XSClient").isTruthy = true := rfl
    cases htruthy : own.isTruthy with
    | true => simp [List.find?, htruthy]
    | false => simp [List.find?, htruthy, hdefault]
  cases asked with
  | none => exact hown
  | some name =>
      by_cases hname : name = ""
      · subst hname
        exact hown
      · have htruthy : (Value.str name).isTruthy = true := by
          simpa [Value.isTruthy] using hname
        simp [classNames, chooseClassName, hname, htruthy]

/-- The class name is a string of the right form. -/
theorem readClassName_eq_ok_iff {v : Value} {name : String} :
    readClassName v = .ok name ↔ v = .str name ∧ SchemaName.isClassName name = true := by
  cases v with
  | str s =>
      cases hs : SchemaName.isClassName s with
      | false =>
          simp only [readClassName, hs, Bool.false_eq_true, if_false, reduceCtorEq, false_iff]
          rintro ⟨heq, hname⟩
          cases heq
          rw [hs] at hname
          cases hname
      | true =>
          simp only [readClassName, hs, if_true, Except.ok.injEq, Value.str.injEq]
          constructor
          · rintro rfl
            exact ⟨rfl, hs⟩
          · exact And.left
  | _ => simp [readClassName]

/-- Nothing can be referred to from the root, so only literal text passes. -/
theorem checkRootSegments_eq_ok_iff {scope : Scope} (hscope : scope.attributes = [])
    {list : List Segment} :
    checkRootSegments scope list = .ok () ↔ ∀ segment ∈ list, ∃ s, segment = .literal s := by
  induction list with
  | nil => simp [checkRootSegments]
  | cons segment rest ih =>
      rw [List.forall_mem_cons, ← ih]
      cases segment with
      | literal s => simp [checkRootSegments]
      | placeholder name spec => simp [checkRootSegments]
      | reference hops attr =>
          have hnone : Carries [] [] := List.Forall₂.nil
          cases hresolve : Scope.resolve [scope] hops attr with
          | error fault => simp [checkRootSegments, hresolve]
          | ok value =>
              obtain ⟨-, _, _, -, hget, -⟩ := (resolve_eq_ok_iff hscope hnone).mp hresolve
              cases hget

/-- Whether a value can be the `$url` of the root. -/
def RootUrlFits (raw : Value) : Prop :=
  raw = .null ∨ ∃ s e, raw = .str s ∧ Expression.parse s = .ok e ∧
    ∀ segment ∈ e.segments, ∃ text, segment = .literal text

theorem exists_readRootUrl_iff {scope : Scope} (hscope : scope.attributes = []) {raw : Value} :
    (∃ url, readRootUrl scope raw = .ok url) ↔ RootUrlFits raw := by
  cases raw with
  | null => simp [readRootUrl, RootUrlFits]
  | str s =>
      cases hparse : Expression.parse s with
      | error fault => simp [readRootUrl, RootUrlFits, hparse]
      | ok e =>
          simp only [readRootUrl, hparse, exceptMap_eq_ok_iff]
          constructor
          · rintro ⟨_, _, hcheck, -⟩
            exact Or.inr ⟨s, e, rfl, hparse, (checkRootSegments_eq_ok_iff hscope).mp hcheck⟩
          · rintro (hnull | ⟨_, e', heq, hparse', hliteral⟩)
            · cases hnull
            · cases heq
              rw [hparse] at hparse'
              cases hparse'
              exact ⟨_, (), (checkRootSegments_eq_ok_iff hscope).mpr hliteral, rfl⟩
  | _ => simp [readRootUrl, RootUrlFits]

/-! ## Methods -/

/-- Whether a value can be the `$method` of an action. -/
def MethodFits (raw : Value) : Prop :=
  raw = .null ∨ ∃ s method, raw = .str s ∧ HttpMethod.ofName? s = some method

theorem exists_readMethod_iff {raw : Value} :
    (∃ method, readMethod (orElseNull raw (.str "GET")) = .ok method) ↔ MethodFits raw := by
  cases raw with
  | null =>
      have hget : readMethod (.str "GET") = .ok .get := by decide
      simp [orElseNull, MethodFits, hget]
  | str s =>
      cases hname : HttpMethod.ofName? s with
      | none => simp [orElseNull, readMethod, MethodFits, hname]
      | some method => simp [orElseNull, readMethod, MethodFits, hname]
  | _ => simp [orElseNull, readMethod, MethodFits]

/-! ## Path parameters -/

/-- Slots of one name have one type. -/
def TypesAgree (slots : List (String × Primitive)) : Prop :=
  ∀ name type type', (name, type) ∈ slots → (name, type') ∈ slots → type = type'

/-- Parameters as slots. -/
def slotsOf (list : List Parameter) : List (String × Primitive) :=
  list.map fun p => (p.name, p.type)

theorem mem_slotsOf {list : List Parameter} {p : Parameter} (h : p ∈ list) :
    (p.name, p.type) ∈ slotsOf list :=
  List.mem_map_of_mem h

theorem map_fst_slotsOf (list : List Parameter) :
    (slotsOf list).map Prod.fst = list.map Parameter.name := by
  rw [slotsOf, List.map_map]
  rfl

/-- A slot with a new name disagrees with no other. -/
private theorem typesAgree_append_singleton {slots : List (String × Primitive)} {name : String}
    {type : Primitive} (h : TypesAgree slots) (hnew : name ∉ slots.map Prod.fst) :
    TypesAgree (slots ++ [(name, type)]) := by
  have hother : ∀ {t}, (name, t) ∉ slots := fun hmem => hnew (List.mem_map_of_mem hmem)
  intro n t t' ht ht'
  rcases List.mem_append.mp ht with ht | ht
  · rcases List.mem_append.mp ht' with ht' | ht'
    · exact h n t t' ht ht'
    · cases List.mem_singleton.mp ht'
      exact absurd ht hother
  · cases List.mem_singleton.mp ht
    rcases List.mem_append.mp ht' with ht' | ht'
    · exact absurd ht' hother
    · cases List.mem_singleton.mp ht'
      rfl

/-- A slot that is there already changes nothing. -/
private theorem typesAgree_insert_iff {slots rest : List (String × Primitive)}
    {slot : String × Primitive} (h : slot ∈ slots) :
    TypesAgree (slots ++ slot :: rest) ↔ TypesAgree (slots ++ rest) := by
  have hmem : ∀ x, x ∈ slots ++ slot :: rest ↔ x ∈ slots ++ rest := by
    intro x
    simp only [List.mem_append, List.mem_cons]
    constructor
    · rintro (hx | rfl | hx)
      · exact Or.inl hx
      · exact Or.inl h
      · exact Or.inr hx
    · rintro (hx | hx)
      · exact Or.inl hx
      · exact Or.inr (Or.inr hx)
  simp only [TypesAgree, hmem]

/-- The path parameters after those found before.  What is found before agrees with itself. -/
private theorem exists_collectPathParams_from_iff {found : List Parameter}
    {slots : List (String × Primitive)} (hfound : TypesAgree (slotsOf found)) :
    (∃ ps, collectPathParams found slots = .ok ps) ↔ TypesAgree (slotsOf found ++ slots) := by
  induction slots generalizing found with
  | nil => simp [collectPathParams, hfound]
  | cons slot rest ih =>
      obtain ⟨name, type⟩ := slot
      cases hfind : found.find? (·.name = name) with
      | none =>
          have hnew : name ∉ (slotsOf found).map Prod.fst := by
            rw [map_fst_slotsOf]
            exact find?_eq_none_iff_not_mem.mp hfind
          -- a new name joins those found, which still agree with each other
          have hslots : slotsOf (found ++ [⟨name, type, .path, none⟩]) =
              slotsOf found ++ [(name, type)] := by
            simp [slotsOf]
          have hagree : TypesAgree (slotsOf found ++ [(name, type)]) :=
            typesAgree_append_singleton hfound hnew
          simp only [collectPathParams, hfind]
          rw [ih (hslots ▸ hagree), hslots, List.append_assoc]
          rfl
      | some first =>
          have hmem := mem_slotsOf (List.mem_of_find?_eq_some hfind)
          have hname : first.name = name := by
            have hfirst := List.find?_some hfind
            exact of_decide_eq_true hfirst
          rw [hname] at hmem
          simp only [collectPathParams, hfind]
          -- the name was found before, so the type alone decides whether the slot is dropped
          by_cases htype : first.type = type
          · rw [if_pos htype, ih hfound, typesAgree_insert_iff (htype ▸ hmem)]
          · rw [if_neg htype]
            constructor
            · rintro ⟨_, hps⟩
              cases hps
            · intro hagree
              exact absurd (hagree name first.type type (List.mem_append_left _ hmem)
                (List.mem_append_right _ List.mem_cons_self)) htype

/-- Path parameters can be collected exactly if slots of one name have one type. -/
theorem exists_collectPathParams_iff {slots : List (String × Primitive)} :
    (∃ ps, collectPathParams [] slots = .ok ps) ↔ TypesAgree slots := by
  rw [exists_collectPathParams_from_iff]
  · rfl
  · intro name type type' htype
    cases htype

/-- The parameter that fills a slot. -/
def pathParameter (slot : String × Primitive) : Parameter :=
  ⟨slot.1, slot.2, .path, none⟩

theorem map_name_pathParameter (slots : List (String × Primitive)) :
    (slots.map pathParameter).map Parameter.name = slots.map Prod.fst := by
  rw [List.map_map]
  rfl

/-- A slot is kept if its name is new, and dropped if the same slot was kept before. -/
theorem collectPathParams_cons {kept rest : List (String × Primitive)} {slot : String × Primitive}
    {ps : List Parameter}
    (h : collectPathParams (kept.map pathParameter) (slot :: rest) = .ok ps) :
    slot.1 ∉ kept.map Prod.fst ∧
        collectPathParams ((kept ++ [slot]).map pathParameter) rest = .ok ps ∨
      slot ∈ kept ∧ collectPathParams (kept.map pathParameter) rest = .ok ps := by
  obtain ⟨name, type⟩ := slot
  cases hfind : (kept.map pathParameter).find? (·.name = name) with
  | none =>
      left
      simp only [collectPathParams, hfind] at h
      refine ⟨?_, ?_⟩
      · rw [← map_name_pathParameter]
        exact find?_eq_none_iff_not_mem.mp hfind
      · rw [List.map_append]
        exact h
  | some first =>
      right
      have hname : first.name = name := by
        have hfirst := List.find?_some hfind
        exact of_decide_eq_true hfirst
      obtain ⟨slot, hslot, rfl⟩ := List.mem_map.mp (List.mem_of_find?_eq_some hfind)
      simp only [collectPathParams, hfind] at h
      split at h
      · rename_i htype
        obtain rfl : slot = (name, type) := Prod.ext hname htype
        exact ⟨hslot, h⟩
      · cases h

private theorem collectPathParams_from (kept : List (String × Primitive))
    {slots : List (String × Primitive)} {ps : List Parameter} (hkept : (kept.map Prod.fst).Nodup)
    (h : collectPathParams (kept.map pathParameter) slots = .ok ps) :
    ps = (kept ++ (slots.removeAll kept).eraseDups).map pathParameter ∧
      (ps.map Parameter.name).Nodup := by
  induction slots generalizing kept with
  | nil =>
      cases h
      refine ⟨by simp [List.removeAll], ?_⟩
      rw [map_name_pathParameter]
      exact hkept
  | cons slot rest ih =>
      rcases collectPathParams_cons h with ⟨hnew, hrest⟩ | ⟨hold, hrest⟩
      · have hslot : slot ∉ kept := fun hmem => hnew (List.mem_map_of_mem hmem)
        have hkept' : ((kept ++ [slot]).map Prod.fst).Nodup := by
          rw [List.map_append, List.map_singleton]
          exact List.nodup_append.mpr ⟨hkept, List.nodup_singleton _, by
            rintro n hn _ hmem rfl
            exact hnew (List.mem_singleton.mp hmem ▸ hn)⟩
        obtain ⟨hps, hnodup⟩ := ih _ hkept' hrest
        refine ⟨?_, hnodup⟩
        -- what is left of the rest without the slot is what `eraseDups` goes on with
        have hleft : rest.removeAll (kept ++ [slot]) =
            (rest.removeAll kept).filter fun other => !other == slot := by
          simp [List.removeAll, List.filter_filter, Bool.and_comm, beq_eq_decide]
        rw [hps, List.cons_removeAll, if_pos (by simpa using hslot), List.eraseDups_cons, hleft,
          List.append_assoc, List.singleton_append]
      · obtain ⟨hps, hnodup⟩ := ih _ hkept hrest
        refine ⟨?_, hnodup⟩
        rw [hps, List.cons_removeAll, if_neg (by simpa using hold)]

/-- The path parameters fill the distinct slots in order of first appearance. -/
theorem collectPathParams_eq {slots : List (String × Primitive)} {ps : List Parameter}
    (h : collectPathParams [] slots = .ok ps) : ps = slots.eraseDups.map pathParameter := by
  have hps := (collectPathParams_from [] List.nodup_nil h).1
  rw [hps]
  simp [List.removeAll]

theorem nodup_names_collectPathParams {slots : List (String × Primitive)} {ps : List Parameter}
    (h : collectPathParams [] slots = .ok ps) : (ps.map Parameter.name).Nodup :=
  (collectPathParams_from [] List.nodup_nil h).2

theorem origin_of_collectPathParams {slots : List (String × Primitive)} {ps : List Parameter}
    (h : collectPathParams [] slots = .ok ps) : ∀ p ∈ ps, p.origin = .path := by
  rw [collectPathParams_eq h]
  intro p hp
  obtain ⟨slot, -, rfl⟩ := List.mem_map.mp hp
  rfl

/-- The path parameters have the names of the slots. -/
theorem mem_names_collectPathParams {ps : List Parameter} {slots : List (String × Primitive)}
    (h : collectPathParams [] slots = .ok ps) (name : String) :
    name ∈ ps.map Parameter.name ↔ name ∈ slots.map Prod.fst := by
  rw [collectPathParams_eq h, map_name_pathParameter]
  simp only [List.mem_map, List.mem_eraseDups]

/-! ## Declared parameters -/

/-- Whether a value can be the type of a declared parameter. -/
def ParameterTypeFits (raw : Value) : Prop :=
  raw = .null ∨ ∃ s spec, raw = .str s ∧ TypeSpec.parse s = .ok spec

theorem exists_readParameterType_iff {raw : Value} :
    (∃ spec, readParameterType raw = .ok spec) ↔ ParameterTypeFits raw := by
  cases raw with
  | null => simp [readParameterType, ParameterTypeFits]
  | str s =>
      cases hparse : TypeSpec.parse s with
      | error fault => simp [readParameterType, ParameterTypeFits, hparse]
      | ok spec => simp [readParameterType, ParameterTypeFits, hparse]
  | _ => simp [readParameterType, ParameterTypeFits]

/-- Whether an entry can declare a parameter. -/
def ParameterFits (entry : Value × Value) : Prop :=
  ∃ name, entry.1 = .str name ∧ SchemaName.hasWordChar name = true ∧ ParameterTypeFits entry.2

theorem exists_readParameter_iff {origin : Origin} {key value : Value} :
    (∃ p, readParameter origin key value = .ok p) ↔ ParameterFits (key, value) := by
  cases key with
  | str name =>
      cases hname : SchemaName.hasWordChar name with
      | false => simp [readParameter, ParameterFits, hname]
      | true =>
          simp [readParameter, ParameterFits, hname, exceptMap_eq_ok_iff,
            ← exists_readParameterType_iff]
  | _ => simp [readParameter, ParameterFits]

/-- A declared parameter has the name of its key. -/
theorem str_name_of_readParameter {origin : Origin} {key value : Value} {p : Parameter}
    (h : readParameter origin key value = .ok p) : key = .str p.name := by
  cases key with
  | str name =>
      rw [readParameter] at h
      split at h
      · obtain ⟨spec, -, rfl⟩ := exceptMap_eq_ok_iff.mp h
        rfl
      · cases h
  | _ => cases h

/-- The names of the string keys among entries, in order. -/
def keyNames : Entries → List String
  | [] => []
  | (.str name, _) :: rest => name :: keyNames rest
  | _ :: rest => keyNames rest

/-- Declared parameters are read one by one. -/
theorem readParameters_eq_ok_iff {origin : Origin} {path : KeyPath} {entries : Entries}
    {ps : List Parameter} :
    readParameters origin path entries = .ok ps ↔
      List.Forall₂ (fun entry p => readParameter origin entry.1 entry.2 = .ok p) entries ps := by
  induction entries generalizing ps with
  | nil => simp [readParameters, eq_comm]
  | cons entry rest ih =>
      obtain ⟨key, value⟩ := entry
      rw [List.forall₂_cons_left_iff, readParameters]
      cases hread : readParameter origin key value with
      | error cause => simp
      | ok p =>
          simp only [exceptMap_eq_ok_iff, Except.ok.injEq]
          constructor
          · rintro ⟨others, hothers, rfl⟩
            exact ⟨p, others, rfl, ih.mp hothers, rfl⟩
          · rintro ⟨_, others, rfl, hothers, rfl⟩
            exact ⟨others, ih.mpr hothers, rfl⟩

theorem exists_readParameters_iff {origin : Origin} {path : KeyPath} {entries : Entries} :
    (∃ ps, readParameters origin path entries = .ok ps) ↔
      ∀ entry ∈ entries, ParameterFits entry := by
  simp only [readParameters_eq_ok_iff]
  constructor
  · rintro ⟨ps, hforall⟩ entry hentry
    obtain ⟨p, -, hread⟩ := exists_right_of_forall₂ hforall hentry
    exact exists_readParameter_iff.mp ⟨p, hread⟩
  · intro h
    exact exists_forall₂_of_forall_exists fun entry hentry =>
      exists_readParameter_iff.mpr (h entry hentry)

theorem names_of_readParameters {origin : Origin} {path : KeyPath} {entries : Entries}
    {ps : List Parameter} (h : readParameters origin path entries = .ok ps) :
    ps.map Parameter.name = keyNames entries := by
  have hforall := readParameters_eq_ok_iff.mp h
  clear h
  induction hforall with
  | nil => rfl
  | @cons entry p rest others hread _ ih =>
      obtain ⟨key, value⟩ := entry
      have hkey : key = .str p.name := str_name_of_readParameter hread
      rw [hkey, keyNames, List.map_cons, ih]

/-- The names that an attribute declares. -/
def declaredNames : Value → List String
  | .map entries => keyNames entries
  | _ => []

/-- Whether a value can be the `$params` or the `$data` of an action. -/
def ParamsFit (raw : Value) : Prop :=
  raw = .null ∨ ∃ entries, raw = .map entries ∧ ∀ entry ∈ entries, ParameterFits entry

theorem exists_readParams_iff {origin : Origin} {path : KeyPath} {raw : Value} :
    (∃ ps, readParams origin path raw = .ok ps) ↔ ParamsFit raw := by
  cases raw with
  | null => simp [readParams, ParamsFit]
  | map entries => simp [readParams, ParamsFit, exists_readParameters_iff]
  | _ => simp [readParams, ParamsFit]

theorem names_of_readParams {origin : Origin} {path : KeyPath} {raw : Value} {ps : List Parameter}
    (h : readParams origin path raw = .ok ps) : ps.map Parameter.name = declaredNames raw := by
  cases raw with
  | null =>
      cases h
      rfl
  | map entries => exact names_of_readParameters h
  | _ => cases h

/-- Declared parameters pass exactly if their names are new. -/
theorem checkOrigins_eq_ok_iff {taken ps : List Parameter} :
    checkOrigins taken ps = .ok () ↔
      Fresh (taken.map Parameter.name) (ps.map Parameter.name) := by
  induction ps generalizing taken with
  | nil => simp [checkOrigins]
  | cons p rest ih =>
      rw [List.map_cons, fresh_cons_iff, ← find?_eq_none_iff_not_mem]
      cases hfind : taken.find? (·.name = p.name) with
      | some first => simp [checkOrigins, hfind]
      | none =>
          simp only [checkOrigins, hfind, true_and]
          rw [ih, List.map_append]
          rfl

end Schema
end ClientForge
