import ClientForge.Proofs.Expression.Grammar
import ClientForge.Proofs.Url.Reading
/-!
# Names of slots

Every placeholder that is read from a schema string has an identifier for a name.  So the slots of a
URL have as well, whether they come from its own `$url` or through references
(`namedSlots_of_chain`).
-/

namespace ClientForge

namespace Expression

/-- A placeholder among segments has an identifier for a name. -/
def NamedSegment : Segment → Prop
  | .placeholder name _ => Text.isIdentifier name.toList = true
  | _ => True

/-- A placeholder is the meaning of a lexeme, which has an identifier in it. -/
theorem named_of_parse {s : String} {e : Expression} (h : parse s = .ok e) :
    ∀ segment ∈ e.segments, NamedSegment segment := by
  obtain ⟨-, -, lexemes, -, hmeans⟩ := parse_eq_ok_iff.mp h
  intro segment hsegment
  cases segment with
  | placeholder name spec =>
      have hitem : Item.placeholder name spec ∈ e.segments.flatMap itemsOf :=
        List.mem_flatMap.mpr ⟨_, hsegment, List.mem_singleton_self _⟩
      obtain ⟨lexeme, -, hlexeme⟩ := exists_left_of_forall₂ hmeans hitem
      cases hlexeme with
      | untyped identifier => exact identifier
      | typed identifier => exact identifier
  | literal s => trivial
  | reference hops attr => trivial

end Expression

namespace Reading

/-- Slots with identifiers for names. -/
def NamedSlots (slots : List (String × Primitive)) : Prop :=
  ∀ slot ∈ slots, Text.isIdentifier slot.1.toList = true

/-- The slots of segments are named properly if those of the enclosing nodes are. -/
theorem namedSlots_of_segments {above : List (List (String × Primitive))} {list : List Segment}
    {slots : List (String × Primitive)} (habove : ∀ own ∈ above, NamedSlots own)
    (hlist : ∀ segment ∈ list, Expression.NamedSegment segment)
    (h : ofSlots.segments above list = some slots) : NamedSlots slots := by
  induction list generalizing slots with
  | nil =>
      cases h
      simp [NamedSlots]
  | cons segment rest ih =>
      rw [List.forall_mem_cons] at hlist
      cases segment with
      | literal s =>
          obtain ⟨others, hothers, rfl⟩ := Option.map_eq_some_iff.mp h
          exact ih hlist.2 hothers
      | placeholder name spec =>
          obtain ⟨others, hothers, rfl⟩ := Option.map_eq_some_iff.mp h
          exact List.forall_mem_cons.mpr ⟨hlist.1, ih hlist.2 hothers⟩
      | reference hops attr =>
          rw [segments] at h
          split at h
          -- a reference takes over the slots of an enclosing node
          · obtain ⟨own, hown, hmap⟩ := Option.bind_eq_some_iff.mp h
            obtain ⟨others, hothers, rfl⟩ := Option.map_eq_some_iff.mp hmap
            have hmem : own ∈ above := by
              cases hops with
              | zero => cases hown
              | succ hops => exact List.mem_of_getElem? hown
            exact List.forall_mem_append.mpr ⟨habove own hmem, ih hlist.2 hothers⟩
          · cases h

/-- The slots of a node and of the nodes that enclose it have identifiers for names. -/
theorem namedSlots_of_chain {urls : List Value} {list : List (List (String × Primitive))}
    (h : ofSlots.chain urls = some list) : ∀ slots ∈ list, NamedSlots slots := by
  induction urls generalizing list with
  | nil =>
      cases h
      exact List.forall_mem_singleton.mpr fun slot hslot => by cases hslot
  | cons raw outer ih =>
      obtain ⟨above, habove, hmap⟩ := Option.bind_eq_some_iff.mp h
      obtain ⟨own, hown, rfl⟩ := Option.map_eq_some_iff.mp hmap
      refine List.forall_mem_cons.mpr ⟨?_, ih habove⟩
      cases raw with
      | str s =>
          cases hparse : Expression.parse s with
          | error fault => simp [url, hparse] at hown
          | ok e =>
              simp only [url, hparse] at hown
              exact namedSlots_of_segments (ih habove) (Expression.named_of_parse hparse) hown
      | _ => cases hown

theorem namedSlots_of_direct {urls : List Value} {slots : List (String × Primitive)}
    (h : ofSlots.direct urls = some slots) : NamedSlots slots := by
  obtain ⟨list, hchain, hhead⟩ := Option.bind_eq_some_iff.mp h
  exact namedSlots_of_chain hchain slots (List.mem_of_head? hhead)

end Reading
end ClientForge
