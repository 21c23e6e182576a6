import ClientForge.Proofs.Schema.Names
/-!
# Words in the names of parameters

The name of a parameter should have a letter or digit in it, so that an identifier can be made of
it.  Names in `$params` and `$data` are checked for that.  Placeholders are not: they have to be
identifiers, and those have a letter or digit unless they are nothing but underscores.  So the names
without a word are those of such placeholders (`carriesWord_iff_of_parameter`), in the `$url` of the
action or in one that it refers to.
-/

namespace ClientForge
namespace SchemaName

/-- There is a letter or digit of ASCII in a name. -/
def CarriesWord (name : String) : Prop :=
  ∃ c ∈ name.toList, c.isAlphanum = true

/-- There is nothing but underscores in a name. -/
def AllUnderscores (name : String) : Prop :=
  ∀ c ∈ name.toList, c = '_'

theorem carriesWord_iff_hasWordChar {name : String} :
    CarriesWord name ↔ hasWordChar name = true := by
  rw [hasWordChar, List.any_eq_true]
  simp only [CarriesWord, Text.isWordChar_eq_isAlphanum]

/-- An underscore is no word. -/
theorem not_allUnderscores_of_carriesWord {name : String} (h : CarriesWord name) :
    ¬ AllUnderscores name := by
  obtain ⟨c, hc, hword⟩ := h
  intro hall
  rw [hall c hc] at hword
  exact absurd hword (by decide)

/-- What an identifier has besides letters and digits are underscores. -/
theorem carriesWord_iff_of_isIdentifier {name : String}
    (h : Text.isIdentifier name.toList = true) : CarriesWord name ↔ ¬ AllUnderscores name := by
  refine ⟨not_allUnderscores_of_carriesWord, ?_⟩
  intro hnot
  by_contra hword
  apply hnot
  intro c hc
  have hchar := Text.isIdentifierChar_of_isIdentifier h hc
  rw [Text.isIdentifierChar, Text.isWordChar_eq_isAlphanum, Bool.or_eq_true, beq_iff_eq] at hchar
  exact hchar.resolve_left fun halnum => hword ⟨c, hc, halnum⟩

end SchemaName

namespace Schema

open SchemaName

/-- A parameter of a bound action has a letter or digit in its name exactly if it is no placeholder
of underscores.  The placeholders are those of the action's URL as the document has it, with the
references in it expanded. -/
theorem carriesWord_iff_of_parameter {document : Value} {asked : Option String} {client : Client}
    {names : List String} {set : ApiSet} {a : Action}
    (h : (bindDocument document asked).result = .ok client)
    (hvisit : (names, set) ∈ client.root.visits []) (ha : a ∈ set.actions) :
    ∃ root keys key urls node slots, document = .map root ∧
      ReachesAction root keys key urls node ∧ a.path = keys ++ [key] ∧
      Reading.ofSlots.direct urls = some slots ∧
      ∀ p ∈ a.parameters,
        (CarriesWord p.name ↔ ¬ (AllUnderscores p.name ∧ p.name ∈ slots.map Prod.fst)) := by
  obtain ⟨root, members, rfl, hclient⟩ := bindDocument_eq_ok_iff.mp h
  obtain ⟨keys, urls, entries, lineage, templates, inner, hreaches, hset, -, -⟩ :=
    exists_reaches_of_visit hclient hvisit
  obtain ⟨key, node, hmem, hkey, -, hbinds⟩ :=
    exists_mem_of_action hset.nested (hset.actions_eq ▸ ha)
  have hslots := hset.direct_eq hbinds Reading.ofSlots
  rw [Reading.ofSlots_template] at hslots
  refine ⟨root, keys, key, _, node, a.url.slots, rfl, ⟨hreaches, hmem, hkey⟩, hbinds.path_eq,
    hslots, ?_⟩
  intro p hp
  rcases hset.hasWordChar_or_slot hbinds hp with hchar | ⟨hidentifier, hslot⟩
  · have hword := carriesWord_iff_hasWordChar.mpr hchar
    exact iff_of_true hword fun hnot => not_allUnderscores_of_carriesWord hword hnot.1
  · rw [carriesWord_iff_of_isIdentifier hidentifier]
    simp only [hslot, and_true]

/-- A placeholder of underscores that an action takes over from the set around it, and another one
of its own. -/
def lowDocument : Value :=
  .map [(.str "~users", .map
    [(.str "$url", .str "/<__>"),
     (.str "get", .map
       [(.str "$url", .str "$\x7b!super\x7d/<_>/<_2>"),
        (.str "$params", .map [(.str "-a-", .null)])])])]

/-- The action has all four names. -/
theorem exists_action_lowDocument : ∃ client names set a,
    (bindDocument lowDocument none).result = .ok client ∧
      (names, set) ∈ client.root.visits [] ∧ a ∈ set.actions ∧
      a.parameters.map Parameter.name = ["__", "_", "_2", "-a-"] := by
  obtain ⟨client, hbind, hvisits⟩ := exists_eq_ok_of_any
    (x := (bindDocument lowDocument none).result)
    (p := fun client => (client.root.visits []).any fun visit => visit.2.actions.any fun a =>
      a.parameters.map Parameter.name = ["__", "_", "_2", "-a-"]) (by decide +kernel)
  obtain ⟨⟨names, set⟩, hvisit, hactions⟩ := List.any_eq_true.mp hvisits
  obtain ⟨a, ha, hnames⟩ := List.any_eq_true.mp hactions
  exact ⟨client, names, set, a, hbind, hvisit, ha, of_decide_eq_true hnames⟩

theorem carriesWord_iff_of_parameter_low : ∃ client names set a,
    (bindDocument lowDocument none).result = .ok client ∧
      (names, set) ∈ client.root.visits [] ∧ a ∈ set.actions ∧
      a.parameters.map Parameter.name = ["__", "_", "_2", "-a-"] ∧
      ∃ root keys key urls node slots, lowDocument = .map root ∧
        ReachesAction root keys key urls node ∧ a.path = keys ++ [key] ∧
        Reading.ofSlots.direct urls = some slots ∧
        ∀ p ∈ a.parameters,
          (CarriesWord p.name ↔ ¬ (AllUnderscores p.name ∧ p.name ∈ slots.map Prod.fst)) := by
  obtain ⟨client, names, set, a, hbind, hvisit, ha, hnames⟩ := exists_action_lowDocument
  exact ⟨client, names, set, a, hbind, hvisit, ha, hnames,
    carriesWord_iff_of_parameter hbind hvisit ha⟩

/-- Neither of the two placeholders is rejected. -/
theorem exists_not_carriesWord_lowDocument : ∃ client names set a,
    (bindDocument lowDocument none).result = .ok client ∧
      (names, set) ∈ client.root.visits [] ∧ a ∈ set.actions ∧
      (∃ p ∈ a.parameters, p.name = "__" ∧ ¬ CarriesWord p.name) ∧
      ∃ p ∈ a.parameters, p.name = "_" ∧ ¬ CarriesWord p.name := by
  obtain ⟨client, names, set, a, hbind, hvisit, ha, hnames⟩ := exists_action_lowDocument
  have hparameter : ∀ name, name ∈ ["__", "_", "_2", "-a-"] → hasWordChar name = false →
      ∃ p ∈ a.parameters, p.name = name ∧ ¬ CarriesWord p.name := by
    intro name hname hword
    rw [← hnames] at hname
    obtain ⟨p, hp, rfl⟩ := List.mem_map.mp hname
    exact ⟨p, hp, rfl, by simp [carriesWord_iff_hasWordChar, hword]⟩
  exact ⟨client, names, set, a, hbind, hvisit, ha, hparameter "__" (by decide) (by decide),
    hparameter "_" (by decide) (by decide)⟩

end Schema
end ClientForge
