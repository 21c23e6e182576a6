import ClientForge.Proofs.Schema.Names
/-!
# The grammar of names

A class name is written as `[A-Za-z_][A-Za-z0-9_]*`, and the name of a member may have dashes
besides.  `Written` is that grammar.  Names are checked up to a line feed at their end, so the names
in a bound client are those of the grammar and those with one line feed more, and only the former
are in the grammar as a whole (`Passed`).  `names_of_bindDocument` says so for all names of a client.
-/

namespace ClientForge
namespace SchemaName

/-- A text that begins with a letter or underscore and goes on with letters, digits, underscores and
the further characters; letters and digits are those of ASCII. -/
def Written (further : List Char) (s : String) : Prop :=
  ∃ c cs, s.toList = c :: cs ∧ (c.isAlpha = true ∨ c = '_') ∧
    ∀ d ∈ cs, d.isAlphanum = true ∨ d = '_' ∨ d ∈ further

/-- No line feed stands in a written text. -/
theorem feed_not_mem_of_written {further : List Char} {s : String} (hfurther : '\n' ∉ further)
    (h : Written further s) : '\n' ∉ s.toList := by
  obtain ⟨c, cs, hlist, hc, hcs⟩ := h
  rw [hlist, List.mem_cons, not_or]
  constructor
  · rintro rfl
    revert hc
    decide
  · intro hmem
    rcases hcs _ hmem with hword | hunderscore | hmem
    · revert hword
      decide
    · revert hunderscore
      decide
    · exact hfurther hmem

/-- A text that is let through: in the grammar up to a line feed at its end, and as a whole exactly
if there is none. -/
structure Passed (further : List Char) (s : String) : Prop where
  line : ∃ text, Written further text ∧ (s = text ∨ s = text ++ "\n")
  written_iff : Written further s ↔ '\n' ∉ s.toList

/-- The characters that are checked for are those of the grammar. -/
theorem written_ofList {further : List Char} {c : Char} {cs : List Char}
    (hstart : Text.isIdentifierStart c = true)
    (hrest : ∀ d ∈ cs, Text.isIdentifierChar d = true ∨ d ∈ further) :
    Written further (String.ofList (c :: cs)) := by
  rw [Text.isIdentifierStart, Text.isLetter_eq_isAlpha, Bool.or_eq_true, beq_iff_eq] at hstart
  refine ⟨c, cs, String.toList_ofList, hstart, fun d hd => ?_⟩
  have hchar := hrest d hd
  rwa [Text.isIdentifierChar, Text.isWordChar_eq_isAlphanum, Bool.or_eq_true, beq_iff_eq,
    or_assoc] at hchar

/-- A name is what is checked of it, or that with a line feed. -/
theorem passed_of_dropFinalLineFeed {further : List Char} {s : String} (hfurther : '\n' ∉ further)
    (h : Written further (String.ofList (dropFinalLineFeed s.toList))) : Passed further s := by
  have hline : s = String.ofList (dropFinalLineFeed s.toList) ∨
      s = String.ofList (dropFinalLineFeed s.toList) ++ "\n" := by
    refine (dropFinalLineFeed_eq_or s.toList).imp ?_ ?_
    · intro heq
      rw [heq, String.ofList_toList]
    · intro heq
      apply String.toList_inj.mp
      rw [String.toList_append, String.toList_ofList]
      exact heq
  refine ⟨⟨_, h, hline⟩, feed_not_mem_of_written hfurther, fun hfree => ?_⟩
  rcases hline with heq | heq
  · rw [heq]
    exact h
  · rw [heq, String.toList_append] at hfree
    exact absurd (List.mem_append_right _ (List.mem_singleton.mpr rfl)) hfree

theorem passed_of_isClassName {s : String} (h : isClassName s = true) : Passed [] s := by
  apply passed_of_dropFinalLineFeed (by decide)
  unfold isClassName at h
  generalize dropFinalLineFeed s.toList = checked at h
  cases checked with
  | nil => cases h
  | cons c cs =>
      obtain ⟨hstart, hrest⟩ := Bool.and_eq_true_iff.mp h
      exact written_ofList hstart fun d hd => Or.inl (List.all_eq_true.mp hrest d hd)

theorem passed_of_isMemberName {s : String} (h : isMemberName s = true) : Passed ['-'] s := by
  apply passed_of_dropFinalLineFeed (by decide)
  have hform := (Bool.and_eq_true_iff.mp h).1
  generalize dropFinalLineFeed s.toList = checked at hform
  cases checked with
  | nil => cases hform
  | cons c cs =>
      obtain ⟨hstart, hrest⟩ := Bool.and_eq_true_iff.mp hform
      refine written_ofList hstart fun d hd => ?_
      have hchar := Bool.or_eq_true_iff.mp (List.all_eq_true.mp hrest d hd)
      exact hchar.imp_right fun hdash => List.mem_singleton.mpr (beq_iff_eq.mp hdash)

end SchemaName

namespace Schema

open SchemaName

/-- Every name in a bound client is one of the grammar, perhaps with a line feed at its end, and is
one as a whole exactly if it has no line feed: the class name, and the names of the sets and actions
at every depth. -/
theorem names_of_bindDocument {document : Value} {asked : Option String} {client : Client}
    (h : (bindDocument document asked).result = .ok client) :
    Passed [] client.className ∧
      ∀ names set, (names, set) ∈ client.root.visits [] →
        (∀ s ∈ set.sets, Passed ['-'] s.name) ∧ ∀ a ∈ set.actions, Passed ['-'] a.name := by
  obtain ⟨root, members, -, hclient⟩ := bindDocument_eq_ok_iff.mp h
  have hclass := (readClassName_eq_ok_iff.mp hclient.className).2
  refine ⟨passed_of_isClassName hclass, fun names set hvisit => ?_⟩
  obtain ⟨hsets, hactions⟩ := isMemberName_of_mem_visit hclient hvisit
  exact ⟨fun s hs => passed_of_isMemberName (hsets s hs),
    fun a ha => passed_of_isMemberName (hactions a ha)⟩

/-- A set and an action whose names end in a line feed. -/
def fedDocument : Value :=
  .map [(.str "~user_2-list", .map [(.str "$url", .str "/u"), (.str "_get-all\n", .null)]),
    (.str "get\n", .null)]

theorem names_of_bindDocument_fed : ∃ client,
    (bindDocument fedDocument (some "Api_2\n")).result = .ok client ∧
      client.root.sets.map ApiSet.name = ["user_2-list"] ∧
      Passed [] client.className ∧
      ∀ names set, (names, set) ∈ client.root.visits [] →
        (∀ s ∈ set.sets, Passed ['-'] s.name) ∧ ∀ a ∈ set.actions, Passed ['-'] a.name := by
  obtain ⟨client, hbind, hsets⟩ := exists_eq_ok_of_any
    (x := (bindDocument fedDocument (some "Api_2\n")).result)
    (p := fun client => client.root.sets.map ApiSet.name = ["user_2-list"]) (by decide +kernel)
  exact ⟨client, hbind, of_decide_eq_true hsets, names_of_bindDocument hbind⟩

/-- The line feed is let through, in the class name and in the name of an action. -/
theorem exists_not_written_fedDocument : ∃ client,
    (bindDocument fedDocument (some "Api_2\n")).result = .ok client ∧
      ¬ Written [] client.className ∧ ∃ a ∈ client.root.actions, ¬ Written ['-'] a.name := by
  obtain ⟨client, hbind, hnames⟩ := exists_eq_ok_of_any
    (x := (bindDocument fedDocument (some "Api_2\n")).result)
    (p := fun client => client.className = "Api_2\n" ∧
      client.root.actions.map Action.name = ["get\n"]) (by decide +kernel)
  obtain ⟨hclass, hactions⟩ := of_decide_eq_true hnames
  refine ⟨client, hbind, fun h => ?_, ?_⟩
  · refine feed_not_mem_of_written (List.not_mem_nil) h ?_
    rw [hclass]
    decide
  · obtain ⟨a, ha, hname⟩ : ∃ a ∈ client.root.actions, a.name = "get\n" :=
      List.mem_map.mp (hactions ▸ List.mem_singleton.mpr rfl)
    refine ⟨a, ha, fun h => feed_not_mem_of_written (by decide) h ?_⟩
    rw [hname]
    decide

end Schema
end ClientForge
