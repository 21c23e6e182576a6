import ClientForge.Proofs.Client.Outcome
/-!
# Collisions

When a client can be assembled, said without the classes that come out: the class names are
distinct, the identifiers of the members of every set are, and so are those of the parameters of
every action (`exists_assemble_iff`).  Besides, every slot of a URL needs a parameter of its name.
-/

namespace ClientForge
namespace Assembly

open Naming

/-- Every slot in the URL of an action has a parameter. -/
def SlotsBound (a : Action) : Prop :=
  ∀ name type, UrlPart.slot name type ∈ a.url.parts → name ∈ a.parameters.map Parameter.name

/-- Only the slots of a URL ask for anything. -/
theorem exists_piece_iff {depth : Nat} {list : List Argument} {part : UrlPart} :
    (∃ p, piece depth list part = .ok p) ↔
      ∀ name type, part = .slot name type → name ∈ list.map Argument.wireName := by
  cases part with
  | text s => simp [piece]
  | base default => simp [piece]
  | slot name type =>
      have hnone : list.find? (·.wireName = name) = none ↔ name ∉ list.map Argument.wireName :=
        find?_eq_none_iff_not_mem
      cases hfind : list.find? (·.wireName = name) with
      | none =>
          simp only [piece, hfind, reduceCtorEq, exists_false, false_iff]
          exact fun h => hnone.mp hfind (h name type rfl)
      | some argument =>
          have hpresent : name ∈ list.map Argument.wireName := by
            by_contra habsent
            rw [hnone.mpr habsent] at hfind
            cases hfind
          simp only [piece, hfind, Except.ok.injEq, exists_eq', true_iff]
          rintro _ _ ⟨⟩
          exact hpresent

theorem map_wireName_argumentOf (style : Style) (list : List Parameter) :
    (list.map (argumentOf style)).map Argument.wireName = list.map Parameter.name := by
  rw [List.map_map]
  rfl

theorem exists_buildsMethod_iff {style : Style} {depth : Nat} {a : Action} :
    (∃ m, BuildsMethod style depth a m) ↔
      (parameterIdentifiers style a.parameters).Nodup ∧ SlotsBound a := by
  constructor
  · rintro ⟨m, h⟩
    refine ⟨h.nodup, ?_⟩
    intro name type hslot
    obtain ⟨p, -, hpiece⟩ := exists_right_of_forall₂ h.url hslot
    have hwire := exists_piece_iff.mp ⟨p, hpiece⟩ name type rfl
    rw [h.arguments_eq, map_wireName_argumentOf] at hwire
    exact hwire
  · rintro ⟨hnodup, hslots⟩
    have hpieces : ∀ part ∈ a.url.parts,
        ∃ p, piece depth (a.parameters.map (argumentOf style)) part = .ok p := by
      intro part hpart
      rw [exists_piece_iff, map_wireName_argumentOf]
      rintro name type rfl
      exact hslots name type hpart
    -- each part has a piece on its own, and the pieces in a row are the URL
    obtain ⟨url, hurl⟩ := exists_forall₂_of_forall_exists hpieces
    let list := a.parameters.map (argumentOf style)
    exact ⟨⟨style.identifier a.name, a.name, list, ⟨a.method.name, url,
      list.filter (·.origin = .query), list.filter (·.origin = .body)⟩⟩, rfl, rfl, hnodup, rfl, rfl,
      hurl, rfl, rfl⟩

/-- What keeps the members of a set and their parameters apart. -/
structure Distinct (style : Style) (set : ApiSet) : Prop where
  members : (setIdentifiers style set.sets ++ actionIdentifiers style set.actions).Nodup
  parameters : ∀ a ∈ set.actions, (parameterIdentifiers style a.parameters).Nodup

theorem exists_buildsClass_iff {style : Style} {rootName : String} {names : List String}
    {ctor : Constructor} {set : ApiSet} :
    (∃ c, BuildsClass style rootName names ctor set c) ↔
      Distinct style set ∧ ∀ a ∈ set.actions, SlotsBound a := by
  constructor
  · rintro ⟨c, h⟩
    have hmethod : ∀ a ∈ set.actions,
        (parameterIdentifiers style a.parameters).Nodup ∧ SlotsBound a := by
      intro a ha
      obtain ⟨m, -, hm⟩ := exists_right_of_forall₂ h.methods ha
      exact exists_buildsMethod_iff.mp ⟨m, hm⟩
    exact ⟨⟨h.nodup, fun a ha => (hmethod a ha).1⟩, fun a ha => (hmethod a ha).2⟩
  · rintro ⟨h, hslots⟩
    obtain ⟨ms, hms⟩ := exists_forall₂_of_forall_exists fun a ha =>
      exists_buildsMethod_iff.mpr ⟨h.parameters a ha, hslots a ha⟩
    exact ⟨⟨className rootName names, set.path.dotted, ctor, _, ms⟩, rfl, rfl, rfl, rfl, h.members,
      hms⟩

/-- A client can be assembled exactly if nothing collides. -/
theorem exists_assemble_iff {language : Language} {config : Config} {client : Client} :
    (∃ m, assemble language config client = .ok m) ↔
      ((client.root.visits []).map fun visit => className client.className visit.1).Nodup ∧
      ∀ visit ∈ client.root.visits [],
        Distinct (styleOf language) visit.2 ∧ ∀ a ∈ visit.2.actions, SlotsBound a := by
  constructor
  · rintro ⟨m, h⟩
    have hm := assemble_eq_ok_iff.mp h
    refine ⟨hm.nodup, ?_⟩
    intro visit hvisit
    obtain ⟨c, -, hc⟩ := exists_right_of_forall₂ hm.classes hvisit
    exact exists_buildsClass_iff.mp ⟨c, hc⟩
  · rintro ⟨hnodup, hdistinct⟩
    obtain ⟨list, hlist⟩ := exists_forall₂_of_forall_exists fun visit hvisit =>
      exists_buildsClass_iff.mpr (hdistinct visit hvisit)
    exact ⟨⟨language, client.className, config.comment, list⟩,
      assemble_eq_ok_iff.mpr ⟨rfl, rfl, rfl, hnodup, hlist⟩⟩

end Assembly
end ClientForge
