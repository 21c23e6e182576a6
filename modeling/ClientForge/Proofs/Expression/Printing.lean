import ClientForge.Proofs.Expression.Grammar
import ClientForge.Proofs.TypeSpec.Printing
/-!
# Written expressions

`Expression.write` writes segments so that they are read back as they were (`parse_write`): literals
with a backslash before each mark, references and placeholders between their own marks.  In
particular any text at all can be a literal.

What is written for a segment divides into its lexemes before any rest (`splits_written_append`),
since no plain character of it is a dollar sign.
-/

namespace ClientForge
namespace Expression

/-! ## Writing -/

/-- What has to be escaped in a literal. -/
def literalMarks : List Char := ['\\', '$', '<']

/-- The body of a reference: a step up for each hop, then the attribute. -/
def referenceBody (hops : Nat) (attr : String) : List Char :=
  (List.replicate hops "!super.".toList).flatten ++ attr.toList

/-- The body of a placeholder: the name, then the type. -/
def placeholderBody (name : String) (spec : TypeSpec) : List Char :=
  name.toList ++ ':' :: spec.written

/-- A segment as it is written in a schema. -/
def written : Segment → List Char
  | .literal s => Text.escaped literalMarks s.toList
  | .reference hops attr => "$\x7b".toList ++ referenceBody hops attr ++ ['\x7d']
  | .placeholder name spec => '<' :: placeholderBody name spec ++ ['>']

/-- Segments as one text. -/
def write (segments : List Segment) : String :=
  String.ofList (segments.flatMap written)

/-- Segments that can be written: attributes and names are identifiers, and a default has no closing
mark in it. -/
def Writable : Segment → Prop
  | .literal _ => True
  | .reference _ attr => Text.isIdentifier attr.toList = true
  | .placeholder name spec => Text.isIdentifier name.toList = true ∧ spec.Writable ∧
      ∀ v, spec.default = some (.string v) → '>' ∉ v.toList

/-- The lexemes of what is written for a segment. -/
def lexemesOf : Segment → List Lexeme
  | .literal s => s.toList.map fun c => if c ∈ literalMarks then .escape c else .plain c
  | .reference hops attr => [.reference (referenceBody hops attr)]
  | .placeholder name spec => [.placeholder (placeholderBody name spec)]

/-! ## Bodies -/

/-- The tokens of a written reference. -/
def tokens (hops : Nat) (attr : String) : List (List Char) :=
  List.replicate hops superToken.toList ++ [attr.toList]

theorem tokens_ne_nil (hops : Nat) (attr : String) : tokens hops attr ≠ [] := by
  simp [tokens]

theorem referenceBody_eq_intercalate (hops : Nat) (attr : String) :
    referenceBody hops attr = ['.'].intercalate (tokens hops attr) := by
  induction hops with
  | zero => simp [referenceBody, tokens]
  | succ hops ih =>
      have hbody : referenceBody (hops + 1) attr =
          superToken.toList ++ ['.'] ++ referenceBody hops attr := by
        rw [referenceBody, List.replicate_succ, List.flatten_cons, List.append_assoc]
        rfl
      have htokens : tokens (hops + 1) attr = superToken.toList :: tokens hops attr := rfl
      rw [hbody, htokens, ih, List.intercalate_cons_of_ne_nil (tokens_ne_nil hops attr)]

/-- The tokens of a reference stand between its dots. -/
theorem splitOn_referenceBody {attr : String} (hops : Nat)
    (h : Text.isIdentifier attr.toList = true) :
    (referenceBody hops attr).splitOn '.' = tokens hops attr := by
  rw [referenceBody_eq_intercalate]
  refine List.splitOn_intercalate '.' ?_ (tokens_ne_nil hops attr)
  intro token htoken
  rcases List.mem_append.mp htoken with hstep | hattr
  · rw [List.eq_of_mem_replicate hstep]
    decide
  · rw [List.mem_singleton.mp hattr]
    exact Text.not_mem_of_isIdentifier h (by decide)

theorem brace_not_mem_referenceBody {attr : String} (hops : Nat)
    (h : Text.isIdentifier attr.toList = true) : '\x7d' ∉ referenceBody hops attr := by
  intro hmem
  rcases List.mem_append.mp hmem with hsteps | hattr
  · obtain ⟨step, hstep, hbrace⟩ := List.mem_flatten.mp hsteps
    rw [List.eq_of_mem_replicate hstep] at hbrace
    exact absurd hbrace (by decide)
  · exact Text.not_mem_of_isIdentifier h (by decide) hattr

theorem means_referenceBody {attr : String} (hops : Nat)
    (h : Text.isIdentifier attr.toList = true) :
    Means (.reference (referenceBody hops attr)) (.reference hops attr) := by
  have hfilled : ∃ c ∈ referenceBody hops attr, Text.isBlank c = false := by
    cases hattr : attr.toList with
    | nil =>
        rw [hattr] at h
        cases h
    | cons c rest =>
        refine ⟨c, ?_, ?_⟩
        · rw [referenceBody, hattr]
          exact List.mem_append_right _ List.mem_cons_self
        · rw [hattr] at h
          exact Text.isBlank_of_isIdentifierChar
            (Text.isIdentifierChar_of_isIdentifier h List.mem_cons_self)
  have hidentifier : ∀ a ∈ some attr, Text.isIdentifier a.toList = true := by
    rintro _ ⟨⟩
    exact h
  refine Means.reference hfilled hidentifier ?_
  rw [splitOn_referenceBody hops h]
  exact List.forall₂_same.mpr fun token _ => Text.padded_self token

theorem means_placeholderBody {name : String} {spec : TypeSpec}
    (h : Writable (.placeholder name spec)) :
    Means (.placeholder (placeholderBody name spec)) (.placeholder name spec) :=
  Means.typed h.1 (Text.padded_self name.toList) (TypeSpec.exists_not_isBlank_written spec)
    (TypeSpec.parse_written h.2.1)

theorem mark_not_mem_placeholderBody {name : String} {spec : TypeSpec}
    (h : Writable (.placeholder name spec)) : '>' ∉ placeholderBody name spec := by
  have hname := Text.not_mem_of_isIdentifier h.1 (by decide : Text.isIdentifierChar '>' = false)
  have hspec := TypeSpec.mark_not_mem_written h.2.2
  rw [placeholderBody, List.mem_append, List.mem_cons]
  simp [hname, hspec]

/-! ## Segments -/

/-- Each lexeme of a segment means an item of it. -/
theorem means_lexemesOf {segment : Segment} (h : Writable segment) :
    List.Forall₂ Means (lexemesOf segment) (itemsOf segment) := by
  cases segment with
  | literal s =>
      rw [lexemesOf, itemsOf, List.forall₂_map_left_iff, List.forall₂_map_right_iff]
      refine List.forall₂_same.mpr fun c _ => ?_
      split
      · exact Means.escape c
      · exact Means.plain c
  | reference hops attr => exact List.Forall₂.cons (means_referenceBody hops h) List.Forall₂.nil
  | placeholder name spec => exact List.Forall₂.cons (means_placeholderBody h) List.Forall₂.nil

/-- Escaped characters divide into escapes and plain characters before any rest. -/
theorem splits_escaped_append {rest : List Char} {lexemes : List Lexeme} (cs : List Char)
    (hrest : Splits rest lexemes) :
    Splits (Text.escaped literalMarks cs ++ rest)
      (cs.map (fun c => if c ∈ literalMarks then .escape c else .plain c) ++ lexemes) := by
  induction cs with
  | nil => exact hrest
  | cons c cs ih =>
      rw [List.map_cons, List.cons_append]
      by_cases hc : c ∈ literalMarks
      · rw [Text.escaped_cons_of_mem hc, if_pos hc]
        exact Splits.escape c ih
      -- a plain character is no dollar sign, so it does not matter what comes next
      · have hplain : c ≠ '\\' ∧ c ≠ '$' ∧ c ≠ '<' := by simpa [literalMarks] using hc
        rw [Text.escaped_cons_of_not_mem hc, if_neg hc]
        exact Splits.plain c hplain.1 hplain.2.2 (fun hdollar => absurd hdollar hplain.2.1) ih

/-- What is written for a segment divides into its lexemes, whatever follows. -/
theorem splits_written_append {segment : Segment} {rest : List Char} {lexemes : List Lexeme}
    (h : Writable segment) (hrest : Splits rest lexemes) :
    Splits (written segment ++ rest) (lexemesOf segment ++ lexemes) := by
  cases segment with
  | literal s => exact splits_escaped_append s.toList hrest
  | reference hops attr =>
      have hsplits := Splits.reference _ (brace_not_mem_referenceBody hops h) hrest
      rw [written, List.append_assoc, List.append_assoc]
      exact hsplits
  | placeholder name spec =>
      have hsplits := Splits.placeholder _ (mark_not_mem_placeholderBody h) hrest
      rw [written, List.append_assoc]
      exact hsplits

theorem splits_flatMap_written {segments : List Segment}
    (h : ∀ segment ∈ segments, Writable segment) :
    Splits (segments.flatMap written) (segments.flatMap lexemesOf) := by
  induction segments with
  | nil => exact Splits.nil
  | cons segment rest ih =>
      rw [List.forall_mem_cons] at h
      rw [List.flatMap_cons, List.flatMap_cons]
      exact splits_written_append h.1 (ih h.2)

theorem means_flatMap_lexemesOf {segments : List Segment}
    (h : ∀ segment ∈ segments, Writable segment) :
    List.Forall₂ Means (segments.flatMap lexemesOf) (segments.flatMap itemsOf) := by
  induction segments with
  | nil => exact List.Forall₂.nil
  | cons segment rest ih =>
      rw [List.forall_mem_cons] at h
      rw [List.flatMap_cons, List.flatMap_cons]
      exact List.rel_append (means_lexemesOf h.1) (ih h.2)

/-! ## Expressions -/

/-- Merged segments that can be written are read back as they were. -/
theorem parse_write_of_merged {segments : List Segment} (hmerged : Merged segments)
    (h : ∀ segment ∈ segments, Writable segment) :
    parse (write segments) = .ok ⟨segments, write segments⟩ := by
  refine parse_eq_ok_iff.mpr ⟨rfl, hmerged, segments.flatMap lexemesOf, ?_,
    means_flatMap_lexemesOf h⟩
  rw [write, String.toList_ofList]
  exact splits_flatMap_written h

/-- One literal has no neighbours, so it may be empty. -/
theorem merged_literal (s : String) : Merged [.literal s] := by
  by_cases hs : s = ""
  · rw [hs]
    exact Or.inl rfl
  · exact Or.inr ⟨List.cons_ne_nil _ _, normal_some_cons_iff.mpr ⟨hs, by simp, normal_nil⟩⟩

/-- Every expression can be written and is read back, and every text can be a literal. -/
theorem parse_write :
    (∀ segments, Merged segments → (∀ segment ∈ segments, Writable segment) →
      parse (write segments) = .ok ⟨segments, write segments⟩) ∧
    ∀ s, ∃ text, parse text = .ok ⟨[.literal s], text⟩ := by
  refine ⟨fun segments => parse_write_of_merged, fun s => ⟨write [.literal s], ?_⟩⟩
  exact parse_write_of_merged (merged_literal s) (List.forall_mem_singleton.mpr trivial)

/-- Marks of both kinds in a literal and in a default, next to real ones. -/
def markedSegments : List Segment :=
  [.literal "a<\\$", .reference 2 "url", .literal "\x7b",
   .placeholder "id" ⟨.string, some (.string "|<\\:")⟩]

theorem parse_write_marked :
    write markedSegments =
        "a\\<\\\\\\$$\x7b!super.!super.url\x7d\x7b<id:string|default:\\|<\\\\:>" ∧
      parse (write markedSegments) = .ok ⟨markedSegments, write markedSegments⟩ := by
  have hreference : Writable (.reference 2 "url") := (by decide : Text.isIdentifier _ = true)
  have hplaceholder : Writable (.placeholder "id" ⟨.string, some (.string "|<\\:")⟩) := by
    refine ⟨by decide, Or.inr ⟨rfl, _, rfl, ?_, ?_⟩, ?_⟩
    · rintro c ⟨⟩
      rfl
    · rintro c ⟨⟩
      rfl
    · rintro v ⟨⟩
      decide
  have hwritable : ∀ segment ∈ markedSegments, Writable segment :=
    List.forall_mem_cons.mpr ⟨trivial, List.forall_mem_cons.mpr ⟨hreference,
      List.forall_mem_cons.mpr ⟨trivial, List.forall_mem_singleton.mpr hplaceholder⟩⟩⟩
  exact ⟨by decide +kernel,
    parse_write.1 markedSegments (Or.inr ⟨by decide, by decide, by decide⟩) hwritable⟩

end Expression
end ClientForge
