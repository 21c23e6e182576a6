import ClientForge.Proofs.Schema.Attribute
/-!
# Parameters of bound actions

An action has a parameter for every placeholder of its URL, in order of first appearance, and then
one for every entry of its `$params` and of its `$data` (`forall₂_declares_of_readParams`).  The
parameters of each origin stand together (`BindsAction.filter_origin`), and no two parameters share
a name, wherever they come from (`BindsAction.nodup_names`).
-/

namespace ClientForge
namespace Schema

/-! ## Entries -/

/-- The entries that an attribute declares parameters with. -/
def declaredEntries : Value → Entries
  | .map entries => entries
  | _ => []

/-- What an entry declares under its key: a string without a default, unless it says otherwise. -/
inductive Declares (origin : Origin) : Value × Value → Parameter → Prop
  | untyped (name : String) : Declares origin (.str name, .null) ⟨name, .string, origin, none⟩
  | typed (name : String) {s : String} {spec : TypeSpec} (parsed : TypeSpec.parse s = .ok spec) :
      Declares origin (.str name, .str s) ⟨name, spec.primitive, origin, spec.default⟩

theorem Declares.origin_eq {origin : Origin} {entry : Value × Value} {p : Parameter}
    (h : Declares origin entry p) : p.origin = origin := by
  cases h with
  | untyped name => rfl
  | typed name parsed => rfl

theorem declares_of_readParameter {origin : Origin} {key value : Value} {p : Parameter}
    (h : readParameter origin key value = .ok p) : Declares origin (key, value) p := by
  cases key with
  | str name =>
      rw [readParameter] at h
      split at h
      · obtain ⟨spec, hspec, rfl⟩ := exceptMap_eq_ok_iff.mp h
        cases value with
        | null =>
            cases hspec
            exact Declares.untyped name
        | str s =>
            cases hparse : TypeSpec.parse s with
            | error fault => simp [readParameterType, hparse] at hspec
            | ok parsed =>
                simp only [readParameterType, hparse] at hspec
                cases hspec
                exact Declares.typed name hparse
        | _ => cases hspec
      · cases h
  | _ => cases h

theorem forall₂_declares_of_readParameters {origin : Origin} {path : KeyPath} {entries : Entries}
    {ps : List Parameter} (h : readParameters origin path entries = .ok ps) :
    List.Forall₂ (Declares origin) entries ps :=
  (readParameters_eq_ok_iff.mp h).imp fun _ _ hread => declares_of_readParameter hread

/-- The parameters of an attribute are what its entries declare, in order. -/
theorem forall₂_declares_of_readParams {origin : Origin} {path : KeyPath} {raw : Value}
    {ps : List Parameter} (h : readParams origin path raw = .ok ps) :
    List.Forall₂ (Declares origin) (declaredEntries raw) ps := by
  cases raw with
  | null =>
      cases h
      exact List.Forall₂.nil
  | map entries => exact forall₂_declares_of_readParameters h
  | _ => cases h

theorem origin_of_readParams {origin : Origin} {path : KeyPath} {raw : Value}
    {ps : List Parameter} (h : readParams origin path raw = .ok ps) :
    ∀ p ∈ ps, p.origin = origin := by
  intro p hp
  obtain ⟨_, -, hdeclares⟩ := exists_left_of_forall₂ (forall₂_declares_of_readParams h) hp
  exact hdeclares.origin_eq

/-! ## Actions -/

private theorem filter_origin {ps : List Parameter} {origin : Origin}
    (h : ∀ p ∈ ps, p.origin = origin) (wanted : Origin) :
    ps.filter (·.origin = wanted) = if origin = wanted then ps else [] := by
  split
  · rename_i heq
    exact List.filter_eq_self.mpr fun p hp => decide_eq_true ((h p hp).trans heq)
  · rename_i hne
    refine List.filter_eq_nil_iff.mpr fun p hp hwanted => hne ?_
    exact (h p hp).symm.trans (of_decide_eq_true hwanted)

section Actions

variable {enclosing : List Scope} {name : String} {path : KeyPath} {entries : Entries} {a : Action}

/-- The parameters of each origin stand together. -/
theorem BindsAction.filter_origin (h : BindsAction enclosing name path entries a)
    (wanted : Origin) : a.parameters.filter (·.origin = wanted) =
      match wanted with
      | .path => a.pathParams
      | .query => a.queryParams
      | .body => a.bodyParams := by
  rw [Action.parameters, List.filter_append, List.filter_append,
    Schema.filter_origin (origin_of_collectPathParams h.pathParams),
    Schema.filter_origin (origin_of_readParams h.queryParams),
    Schema.filter_origin (origin_of_readParams h.bodyParams)]
  cases wanted with
  | path => simp
  | query => simp
  | body => simp

/-- A parameter from the path fills a slot of the URL. -/
theorem BindsAction.exists_slot (h : BindsAction enclosing name path entries a) {p : Parameter}
    (hp : p ∈ a.parameters) (horigin : p.origin = .path) :
    ∃ slot ∈ a.url.slots, p = pathParameter slot := by
  have hpath : p ∈ a.parameters.filter (·.origin = .path) :=
    List.mem_filter.mpr ⟨hp, decide_eq_true horigin⟩
  rw [h.filter_origin, collectPathParams_eq h.pathParams] at hpath
  obtain ⟨slot, hslot, rfl⟩ := List.mem_map.mp hpath
  exact ⟨slot, List.mem_eraseDups.mp hslot, rfl⟩

/-- No two parameters of an action have one name. -/
theorem BindsAction.nodup_names (h : BindsAction enclosing name path entries a) :
    (a.parameters.map Parameter.name).Nodup := by
  obtain ⟨hdeclared, hdistinct⟩ := checkOrigins_eq_ok_iff.mp h.origins
  rw [Action.parameters, List.append_assoc, List.map_append]
  refine List.nodup_append.mpr ⟨nodup_names_collectPathParams h.pathParams, hdeclared, ?_⟩
  rintro n hpath _ hother rfl
  exact hdistinct n hother hpath

end Actions

end Schema
end ClientForge
