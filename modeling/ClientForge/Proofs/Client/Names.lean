import ClientForge.Proofs.Client.Outcome
import ClientForge.Proofs.Schema.Names
/-!
# Names in an assembled module

The names that a class of a bound client refers to are of two kinds: identifiers of names that give
one, and class names.  So what holds of both holds of all names in the module
(`namedClass_of_assembles`).  The names under which parameters are sent are not among them.
-/

namespace ClientForge
namespace Assembly

open Naming

/-- Every name that a method refers to is of some kind. -/
structure NamedMethod (P : String → Prop) (f : Method) : Prop where
  name : P f.name
  arguments : ∀ a ∈ f.arguments, P a.name
  url : ∀ name type, .param name type ∈ f.call.url → P name
  query : ∀ a ∈ f.call.query, P a.name
  body : ∀ a ∈ f.call.body, P a.name

/-- Every name that a class refers to is of some kind. -/
structure NamedClass (P : String → Prop) (c : ClassDecl) : Prop where
  name : P c.name
  arguments : ∀ a ∈ c.constructor.arguments, P a.name
  parent : ∀ name, c.constructor.parentClass = some name → P name
  accessors : ∀ a ∈ c.accessors, P a.name ∧ P a.className
  methods : ∀ f ∈ c.methods, NamedMethod P f

variable {P : String → Prop} {style : Style}

theorem namedMethod_of_buildsMethod
    (hidentifier : ∀ name, HasIdentifier name → P (style.identifier name)) {depth : Nat}
    {a : Action} {f : Method} (h : BuildsMethod style depth a f) (hname : HasIdentifier a.name)
    (hparameters : ∀ p ∈ a.parameters, HasIdentifier p.name) : NamedMethod P f := by
  have harguments : ∀ argument ∈ f.arguments, P argument.name := by
    intro argument hargument
    rw [h.arguments_eq] at hargument
    obtain ⟨p, hp, rfl⟩ := List.mem_map.mp hargument
    exact hidentifier p.name (hparameters p hp)
  refine ⟨?_, harguments, ?_, ?_, ?_⟩
  · rw [h.name_eq]
    exact hidentifier a.name hname
  · intro name type hmem
    obtain ⟨part, -, hpiece⟩ := exists_left_of_forall₂ h.url hmem
    cases part with
    | text s => cases hpiece
    | base default => cases hpiece
    | slot slot _ =>
        obtain ⟨argument, hfind, heq⟩ := piece_slot_eq_ok_iff.mp hpiece
        cases heq
        exact harguments argument (List.mem_of_find?_eq_some hfind)
  · rw [h.query_eq]
    exact fun argument hargument => harguments argument (List.mem_of_mem_filter hargument)
  · rw [h.body_eq]
    exact fun argument hargument => harguments argument (List.mem_of_mem_filter hargument)

theorem namedClass_of_buildsClass {client : Client} {names : List String} {set : ApiSet}
    {c : ClassDecl} (hidentifier : ∀ name, HasIdentifier name → P (style.identifier name))
    (hclass : ∀ names, P (className client.className names)) (hurl : P "url")
    (h : BuildsClass style client.className names
      (constructorAt client.className (rootConstructor client.url) names) set c)
    (hsets : ∀ s ∈ set.sets, HasIdentifier s.name)
    (hactions : ∀ a ∈ set.actions, HasIdentifier a.name ∧
      ∀ p ∈ a.parameters, HasIdentifier p.name) : NamedClass P c := by
  refine ⟨?_, ?_, ?_, ?_, ?_⟩
  · rw [h.name_eq]
    exact hclass names
  · rw [h.constructor_eq]
    -- the root class takes the base URL, every other class its parent
    cases names with
    | nil => exact List.forall_mem_singleton.mpr hurl
    | cons first rest => exact fun argument hargument => by cases hargument
  · intro parent hparent
    rw [h.constructor_eq] at hparent
    cases names with
    | nil => cases hparent
    | cons first rest =>
        cases hparent
        exact hclass _
  · intro accessor haccessor
    rw [h.accessors_eq] at haccessor
    obtain ⟨s, hs, rfl⟩ := List.mem_map.mp haccessor
    exact ⟨hidentifier s.name (hsets s hs), hclass _⟩
  · intro f hf
    obtain ⟨a, ha, hmethod⟩ := exists_left_of_forall₂ h.methods hf
    exact namedMethod_of_buildsMethod hidentifier hmethod (hactions a ha).1 (hactions a ha).2

/-- What holds of identifiers and of class names holds of all names in a module. -/
theorem namedClass_of_assembles {asked : Option String} {root : Schema.Entries}
    {members : List Schema.Member} {client : Client} {language : Language} {config : Config}
    {m : Module} (hclient : Schema.BindsClient asked root members client)
    (hm : Assembles language config client m)
    (hidentifier : ∀ name, HasIdentifier name → P ((styleOf language).identifier name))
    (hclass : ∀ names, P (className client.className names)) (hurl : P "url") :
    ∀ c ∈ m.classes, NamedClass P c := by
  intro c hc
  obtain ⟨visit, hvisit, hbuilds⟩ := exists_left_of_forall₂ hm.classes hc
  obtain ⟨hsets, hactions⟩ := Schema.names_of_visit hclient hvisit
  exact namedClass_of_buildsClass hidentifier hclass hurl hbuilds hsets hactions

end Assembly
end ClientForge
