import ClientForge.Proofs.Naming.Identifier
import ClientForge.Proofs.Schema.Attribute
import ClientForge.Proofs.Schema.Reach
import ClientForge.Proofs.Url.Slot
/-!
# Names in a bound client

What binding makes sure of for every name that becomes an identifier: the names of members have a
letter or digit, and so have those of declared parameters; a placeholder may do without, but then
its name is an identifier already (`names_of_visit`).
-/

namespace ClientForge
namespace Schema

open Naming

/-- A letter or digit makes a word. -/
theorem smallWords_ne_nil_of_hasWordChar {name : String} (h : SchemaName.hasWordChar name = true) :
    smallWords name ≠ [] := by
  intro hnil
  obtain ⟨c, hc, hword⟩ := List.any_eq_true.mp h
  rw [smallWords_eq_nil_iff.mp hnil c hc] at hword
  cases hword

theorem smallWords_ne_nil_of_isMemberName {name : String}
    (h : SchemaName.isMemberName name = true) : smallWords name ≠ [] :=
  smallWords_ne_nil_of_hasWordChar (Bool.and_eq_true_iff.mp h).2

theorem hasIdentifier_of_isMemberName {name : String} (h : SchemaName.isMemberName name = true) :
    HasIdentifier name :=
  Or.inl (smallWords_ne_nil_of_isMemberName h)

theorem hasWordChar_of_readParameter {origin : Origin} {key value : Value} {p : Parameter}
    (h : readParameter origin key value = .ok p) : SchemaName.hasWordChar p.name = true := by
  obtain ⟨name, hname, hword, -⟩ := exists_readParameter_iff.mp ⟨p, h⟩
  dsimp only at hname
  rw [str_name_of_readParameter h] at hname
  cases hname
  exact hword

/-- A declared parameter has a letter or digit in its name. -/
theorem hasWordChar_of_readParams {origin : Origin} {path : KeyPath} {raw : Value}
    {ps : List Parameter} (h : readParams origin path raw = .ok ps) :
    ∀ p ∈ ps, SchemaName.hasWordChar p.name = true := by
  intro p hp
  cases raw with
  | null =>
      cases h
      cases hp
  | map entries =>
      obtain ⟨_, -, hread⟩ := exists_left_of_forall₂ (readParameters_eq_ok_iff.mp h) hp
      exact hasWordChar_of_readParameter hread
  | _ => cases h

/-- A parameter of a bound action has a letter or digit in its name, or it has the name of a slot of
the URL, which need not contain any word. -/
theorem BoundSet.hasWordChar_or_slot {keys path : KeyPath} {urls : List Value}
    {entries inner : Entries} {lineage : List Scope} {templates : List UrlTemplate}
    {members : List Member} {set : ApiSet} {name : String} {a : Action} {p : Parameter}
    (h : BoundSet keys urls entries lineage templates members set)
    (ha : BindsAction lineage name path inner a) (hp : p ∈ a.parameters) :
    SchemaName.hasWordChar p.name = true ∨
      Text.isIdentifier p.name.toList = true ∧ p.name ∈ a.url.slots.map Prod.fst := by
  rcases List.mem_append.mp hp with hp | hbody
  · rcases List.mem_append.mp hp with hpath | hquery
    · have hslots := Reading.namedSlots_of_direct (h.direct_eq ha Reading.ofSlots)
      rw [Reading.ofSlots_template] at hslots
      have hname := (mem_names_collectPathParams ha.pathParams p.name).mp
        (List.mem_map_of_mem hpath)
      obtain ⟨slot, hslot, heq⟩ := List.mem_map.mp hname
      exact Or.inr ⟨heq ▸ hslots slot hslot, hname⟩
    · exact Or.inl (hasWordChar_of_readParams ha.queryParams p hquery)
  · exact Or.inl (hasWordChar_of_readParams ha.bodyParams p hbody)

/-- Every parameter of a bound action gives an identifier. -/
theorem BoundSet.hasIdentifier_of_parameter {keys path : KeyPath} {urls : List Value}
    {entries inner : Entries} {lineage : List Scope} {templates : List UrlTemplate}
    {members : List Member} {set : ApiSet} {name : String} {a : Action}
    (h : BoundSet keys urls entries lineage templates members set)
    (ha : BindsAction lineage name path inner a) : ∀ p ∈ a.parameters, HasIdentifier p.name := by
  intro p hp
  rcases h.hasWordChar_or_slot ha hp with hword | ⟨hidentifier, -⟩
  · exact Or.inl (smallWords_ne_nil_of_hasWordChar hword)
  · exact Or.inr hidentifier

section Visits

variable {asked : Option String} {root : Entries} {members : List Member} {client : Client}
  {names : List String} {set : ApiSet}

/-- The names that lead to a visited set are names of members. -/
theorem isMemberName_of_visit (hclient : BindsClient asked root members client)
    (h : (names, set) ∈ client.root.visits []) :
    ∀ name ∈ names, SchemaName.isMemberName name = true := by
  obtain ⟨keys, _, _, _, _, _, -, -, rfl, hkeys⟩ := exists_reaches_of_visit hclient h
  intro name hname
  obtain ⟨key, hkey, rfl⟩ := List.mem_map.mp hname
  obtain ⟨own, hown, hform⟩ := hkeys key hkey
  rw [memberName_of_setName? hown]
  exact hform

/-- The sets and actions in a visited set have names of members. -/
theorem isMemberName_of_mem_visit (hclient : BindsClient asked root members client)
    (h : (names, set) ∈ client.root.visits []) :
    (∀ s ∈ set.sets, SchemaName.isMemberName s.name = true) ∧
      ∀ a ∈ set.actions, SchemaName.isMemberName a.name = true := by
  obtain ⟨_, _, _, _, _, _, -, hset, -, -⟩ := exists_reaches_of_visit hclient h
  constructor
  · intro s hs
    obtain ⟨_, name, _, _, -, -, hname, hbinds⟩ :=
      exists_mem_of_set hset.nested (hset.sets_eq ▸ hs)
    rw [hbinds.name_eq]
    exact hname
  · intro a ha
    obtain ⟨key, _, -, -, hname, hbinds⟩ := exists_mem_of_action hset.nested (hset.actions_eq ▸ ha)
    rw [hbinds.name_eq]
    exact hname

/-- The names below a visited set. -/
theorem names_of_visit (hclient : BindsClient asked root members client)
    (h : (names, set) ∈ client.root.visits []) :
    (∀ s ∈ set.sets, HasIdentifier s.name) ∧
      ∀ a ∈ set.actions, HasIdentifier a.name ∧ ∀ p ∈ a.parameters, HasIdentifier p.name := by
  obtain ⟨hsets, hactions⟩ := isMemberName_of_mem_visit hclient h
  obtain ⟨_, _, _, _, _, _, -, hset, -, -⟩ := exists_reaches_of_visit hclient h
  refine ⟨fun s hs => hasIdentifier_of_isMemberName (hsets s hs), fun a ha => ?_⟩
  obtain ⟨_, _, -, -, -, hbinds⟩ := exists_mem_of_action hset.nested (hset.actions_eq ▸ ha)
  exact ⟨hasIdentifier_of_isMemberName (hactions a ha), hset.hasIdentifier_of_parameter hbinds⟩

end Visits

end Schema
end ClientForge
