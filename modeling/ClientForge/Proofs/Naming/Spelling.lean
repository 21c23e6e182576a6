import ClientForge.Proofs.Naming.Camel
/-!
# Spellings of an identifier

Which names get a given identifier.  None gets a reserved word (`identifier_not_mem_reserved`), and
none gets an underscore at the front unless a digit follows (`isDigit_of_identifier_eq`).

An identifier without digits shows its words: the snake style has underscores between them, and the
camel style a capital at the beginning of each but the first.  So the names that get it are those
with these words, whatever separates the words (`identifier_eq_iff_smallWords_eq`).
-/

namespace ClientForge
namespace Naming

/-! ## Reserved words and underscores -/

/-- No reserved word ends in an underscore. -/
private theorem getLast?_of_reserved (language : Language) :
    ∀ word ∈ (styleOf language).reserved, word.toList.getLast? ≠ some '_' := by
  cases language with
  | javaScript => decide
  | typeScript => decide
  | python => decide

/-- No identifier of a language is one of its reserved words. -/
theorem identifier_not_mem_reserved (language : Language) (name : String) :
    (styleOf language).identifier name ∉ (styleOf language).reserved := by
  rw [Style.identifier, escape_eq]
  split
  -- a reserved word got an underscore at its end, and no reserved word has one there
  · intro hmem
    apply getLast?_of_reserved language _ hmem
    simp
  · rename_i hfree
    simpa using hfree

/-- An identifier begins as the formatted name does, with an underscore before a digit. -/
theorem exists_cons_identifier {style : Style} {name : String} (hwords : smallWords name ≠ []) :
    ∃ c rest, Text.isWordChar c = true ∧
      (Text.isDigit c = true ∧ (style.identifier name).toList = '_' :: c :: rest ∨
        Text.isDigit c = false ∧ (style.identifier name).toList = c :: rest) := by
  have hsolid : Solid (style.casing.format name).toList := solid_format hwords
  obtain ⟨c, more, hformat, hc⟩ := hsolid.head
  -- reserved words change an identifier at its end only
  have hafter : ∃ after, (style.identifier name).toList =
      (escape [] (style.casing.format name)).toList ++ after := by
    rw [Style.identifier, escape_eq]
    split
    · exact ⟨['_'], String.toList_append⟩
    · exact ⟨[], (List.append_nil _).symm⟩
  obtain ⟨after, hafter⟩ := hafter
  refine ⟨c, more ++ after, hc, ?_⟩
  cases hdigit : Text.isDigit c with
  | true =>
      have hsafe : (escape [] (style.casing.format name)).toList = '_' :: c :: more := by
        simp [escape, hformat, hdigit]
      exact Or.inl ⟨rfl, by rw [hafter, hsafe]; rfl⟩
  | false =>
      have hsafe : (escape [] (style.casing.format name)).toList = c :: more := by
        simp [escape, hformat, hdigit]
      exact Or.inr ⟨rfl, by rw [hafter, hsafe]; rfl⟩

/-- An underscore at the front of an identifier stands before a digit. -/
theorem isDigit_of_identifier_eq {style : Style} {name : String} {rest : List Char}
    (hwords : smallWords name ≠ []) (h : (style.identifier name).toList = '_' :: rest) :
    rest.head?.any Text.isDigit = true := by
  obtain ⟨c, more, hc, ⟨hdigit, heq⟩ | ⟨-, heq⟩⟩ := @exists_cons_identifier style name hwords
  · rw [h] at heq
    cases heq
    simpa using hdigit
  · rw [h] at heq
    exact absurd (List.cons.inj heq).1.symm (Text.ne_underscore_of_isWordChar hc)

/-! ## Words of letters -/

/-- Words of small letters, without digits. -/
def Lettered (words : List (List Char)) : Prop :=
  ∀ word ∈ words, word ≠ [] ∧ ∀ c ∈ word, Text.isLower c = true

theorem lettered_iff_all {words : List (List Char)} :
    Lettered words ↔ (words.all fun word => !word.isEmpty && word.all Text.isLower) = true := by
  simp [Lettered]

instance : DecidablePred Lettered :=
  fun _ => decidable_of_iff _ lettered_iff_all.symm

theorem Lettered.uniform {words : List (List Char)} (h : Lettered words) :
    ∀ word ∈ words, Uniform word :=
  fun word hword => ⟨(h word hword).1, Or.inl (h word hword).2⟩

theorem Lettered.isNumber_eq_false {words : List (List Char)} (h : Lettered words) :
    ∀ word ∈ words, isNumber word = false := by
  intro word hword
  obtain ⟨hne, hlower⟩ := h word hword
  obtain ⟨c, rest, rfl⟩ := List.exists_cons_of_ne_nil hne
  refine Bool.eq_false_iff.mpr fun hnumber => ?_
  have hdigit := isNumber_iff.mp hnumber c List.mem_cons_self
  rw [Text.isNumeral_eq_false_of_isLower (hlower c List.mem_cons_self)] at hdigit
  cases hdigit

/-- Words that look like words without digits in the camel style are those words. -/
private theorem eq_of_camelOf_eq {words other : List (List Char)}
    (hwords : ∀ word ∈ words, Uniform word) (hother : Lettered other)
    (h : camelOf words = camelOf other) : words = other := by
  rw [camelOf_eq_iff hwords hother.uniform, joinNumbers_eq_self hother.isNumber_eq_false] at h
  have hself : joinNumbers words = words :=
    joinNumbers_eq_self_of_joined (by rw [h]; exact hother.isNumber_eq_false)
  exact hself.symm.trans h

/-! ## Names of an identifier -/

theorem Lettered.isWordChar {words : List (List Char)} (h : Lettered words) :
    ∀ word ∈ words, word ≠ [] ∧ ∀ c ∈ word, Text.isWordChar c = true :=
  fun word hword => ⟨(h word hword).1, fun c hc =>
    Text.isWordChar_iff.mpr (Or.inr (Or.inl ((h word hword).2 c hc)))⟩

/-- A name looks like words without digits exactly if these are its words. -/
theorem joinedIn_smallWords_eq_iff (casing : Casing) {name : String} {words : List (List Char)}
    (hname : smallWords name ≠ []) (hne : words ≠ []) (hwords : Lettered words) :
    joinedIn casing (smallWords name) = joinedIn casing words ↔ smallWords name = words := by
  constructor
  · intro h
    cases casing with
    | camel => exact eq_of_camelOf_eq (fun _ => uniform_of_mem_smallWords) hwords h
    | snake =>
        have hplain : ∀ {list : List (List Char)},
            (∀ word ∈ list, word ≠ [] ∧ ∀ c ∈ word, Text.isWordChar c = true) →
            ∀ word ∈ list, '_' ∉ word := by
          intro list hlist word hword hmem
          exact Text.ne_underscore_of_isWordChar ((hlist word hword).2 _ hmem) rfl
        rw [← List.splitOn_intercalate '_' (hplain fun _ => word_of_mem_smallWords) hname,
          ← List.splitOn_intercalate '_' (hplain hwords.isWordChar) hne]
        exact congrArg (List.splitOn '_') h
  · exact congrArg (joinedIn casing)

/-- The names that get an identifier without digits are those with its words.  The text must be an
identifier as it is: one that is reserved is nobody's. -/
theorem identifier_eq_iff_smallWords_eq {style : Style} {name text : String}
    {words : List (List Char)} (hne : words ≠ []) (hwords : Lettered words)
    (htext : text.toList = joinedIn style.casing words)
    (hfixed : escape style.reserved text = text) :
    style.identifier name = text ↔ smallWords name = words := by
  have hsolid : Solid text.toList := htext ▸ solid_joinedIn hne hwords.isWordChar
  by_cases hname : smallWords name = []
  · refine iff_of_false ?_ fun h => hne (h ▸ hname)
    rintro rfl
    obtain ⟨c, rest, hcons, hc⟩ := hsolid.head
    have hplain := (smallWords_eq_nil_iff_identifier style).mp hname c
      (hcons ▸ List.mem_cons_self)
    rw [hplain] at hc
    cases hc
  · rw [← joinedIn_smallWords_eq_iff style.casing hname hne hwords, ← htext,
      ← toList_format hname, String.toList_inj, ← escape_inj (solid_format hname) hsolid, hfixed]
    rfl

end Naming
end ClientForge
