import ClientForge.Proofs.Naming.Spelling
import ClientForge.Proofs.Text.Digit
import ClientForge.Schema.Name
/-!
# Clashes of names

What every identifier is like, and exactly when two names get the same one.  Escaping never merges
names that are formatted apart, so the question is what the case styles merge: the snake style tells
the words of names apart, the camel style does so up to numbers that stand next to each other.
-/

namespace ClientForge
namespace Naming

/-- What the identifiers of a language are like.  The last two follow from the others. -/
structure Legal (language : Language) (identifier : String) : Prop where
  isIdentifier : Text.isIdentifier identifier.toList = true
  notReserved : identifier ∉ (styleOf language).reserved
  underscore : ∀ rest, identifier.toList = '_' :: rest → rest.head?.any Text.isNumeral = true
  notInternal : identifier ∉ ["_url", "_super", "_path", "__init__"]
  notConstructor : language ≠ .python → identifier ≠ "constructor"

theorem smallWords_ne_nil_iff {name : String} :
    smallWords name ≠ [] ↔ SchemaName.hasWordChar name = true := by
  rw [Ne, smallWords_eq_nil_iff, SchemaName.hasWordChar, List.any_eq_true]
  simp

section Identifier

variable {style : Style} {name : String}

/-- An identifier begins with a letter or an underscore. -/
theorem isIdentifier_identifier (hwords : smallWords name ≠ []) :
    Text.isIdentifier (style.identifier name).toList = true := by
  have hchars : ∀ c ∈ (style.identifier name).toList, Text.isIdentifierChar c = true :=
    fun c => isIdentifierChar_of_mem_identifier (Or.inl hwords)
  obtain ⟨c, rest, hc, ⟨-, heq⟩ | ⟨hdigit, heq⟩⟩ := @exists_cons_identifier style name hwords
  · rw [heq] at hchars ⊢
    obtain ⟨-, hrest⟩ := List.forall_mem_cons.mp hchars
    rw [Text.isIdentifier, Bool.and_eq_true, List.all_eq_true]
    exact ⟨by decide, hrest⟩
  · rw [heq] at hchars ⊢
    obtain ⟨-, hrest⟩ := List.forall_mem_cons.mp hchars
    rw [Text.isDigit_eq_isNumeral (Text.toNat_lt_of_isWordChar hc)] at hdigit
    rw [Text.isIdentifier, Bool.and_eq_true, List.all_eq_true]
    refine ⟨?_, hrest⟩
    rw [Text.isWordChar, hdigit, Bool.or_false] at hc
    rw [Text.isIdentifierStart, hc, Bool.true_or]

/-- An underscore at the front stands before a digit of ASCII. -/
theorem isNumeral_of_identifier_eq {rest : List Char} (hwords : smallWords name ≠ [])
    (h : (style.identifier name).toList = '_' :: rest) :
    rest.head?.any Text.isNumeral = true := by
  have hdigit := isDigit_of_identifier_eq hwords h
  cases rest with
  | nil => cases hdigit
  | cons c rest =>
      have hmem : c ∈ (style.identifier name).toList := by simp [h]
      have hchar := isIdentifierChar_of_mem_identifier (Or.inl hwords) hmem
      have hcode : c.toNat < 128 := by
        rcases Bool.or_eq_true_iff.mp hchar with hword | hunderscore
        · exact Text.toNat_lt_of_isWordChar hword
        · rw [beq_iff_eq.mp hunderscore]
          decide
      simpa [Text.isDigit_eq_isNumeral hcode] using hdigit

end Identifier

theorem legal_identifier (language : Language) {name : String} (hwords : smallWords name ≠ []) :
    Legal language ((styleOf language).identifier name) where
  isIdentifier := isIdentifier_identifier hwords
  notReserved := identifier_not_mem_reserved language name
  underscore _ := isNumeral_of_identifier_eq hwords
  notInternal := by
    intro hmem
    simp only [List.mem_cons, List.not_mem_nil, or_false] at hmem
    -- none of these has a digit after its underscore
    rcases hmem with h | h | h | h
    · exact absurd (isNumeral_of_identifier_eq hwords (congrArg String.toList h)) (by decide)
    · exact absurd (isNumeral_of_identifier_eq hwords (congrArg String.toList h)) (by decide)
    · exact absurd (isNumeral_of_identifier_eq hwords (congrArg String.toList h)) (by decide)
    · exact absurd (isNumeral_of_identifier_eq hwords (congrArg String.toList h)) (by decide)
  notConstructor := by
    intro hlanguage h
    refine identifier_not_mem_reserved language name (h ▸ ?_)
    cases language with
    | javaScript => decide
    | typeScript => decide
    | python => exact absurd rfl hlanguage

/-- Names with words are formatted alike in the camel style exactly if their words agree up to
joined numbers. -/
theorem format_camel_eq_iff {a b : String} (ha : smallWords a ≠ []) (hb : smallWords b ≠ []) :
    Casing.camel.format a = Casing.camel.format b ↔
      joinNumbers (smallWords a) = joinNumbers (smallWords b) := by
  rw [← String.toList_inj, toList_format ha, toList_format hb]
  exact camelOf_eq_iff (fun _ => uniform_of_mem_smallWords) fun _ => uniform_of_mem_smallWords

theorem format_snake_eq_iff {a b : String} (ha : smallWords a ≠ []) (hb : smallWords b ≠ []) :
    Casing.snake.format a = Casing.snake.format b ↔ smallWords a = smallWords b := by
  refine ⟨smallWords_eq_of_snake ha hb, fun h => ?_⟩
  rw [← String.toList_inj, toList_format ha, toList_format hb, h]

/-- Every name with a letter or digit gets a legal identifier in every language.  Two such names get
the same one in Python exactly if their words agree in small letters, and in the other languages
exactly if these words agree once neighbouring numbers are joined. -/
theorem identifier_legal_and_eq_iff (a b : String) (ha : SchemaName.hasWordChar a = true)
    (hb : SchemaName.hasWordChar b = true) :
    (∀ language, Legal language ((styleOf language).identifier a)) ∧
    ((styleOf .python).identifier a = (styleOf .python).identifier b ↔
      smallWords a = smallWords b) ∧
    ∀ language, language ≠ .python →
      ((styleOf language).identifier a = (styleOf language).identifier b ↔
        joinNumbers (smallWords a) = joinNumbers (smallWords b)) := by
  rw [← smallWords_ne_nil_iff] at ha hb
  refine ⟨fun language => legal_identifier language ha, ?_, ?_⟩
  · rw [identifier_eq_iff_format_eq ha hb]
    exact format_snake_eq_iff ha hb
  · intro language hlanguage
    have hcamel : (styleOf language).casing = .camel := by
      cases language with
      | javaScript => rfl
      | typeScript => rfl
      | python => exact absurd rfl hlanguage
    rw [identifier_eq_iff_format_eq ha hb, hcamel]
    exact format_camel_eq_iff ha hb

/-- Two numbers in a row and one number: the names clash in JavaScript and not in Python. -/
theorem identifier_legal_and_eq_iff_numbers :
    Legal .python ((styleOf .python).identifier "1_2-class") ∧
    (styleOf .python).identifier "1_2-class" ≠ (styleOf .python).identifier "12CLASS" ∧
    (styleOf .javaScript).identifier "1_2-class" = (styleOf .javaScript).identifier "12CLASS" := by
  obtain ⟨hlegal, hsnake, hcamel⟩ :=
    identifier_legal_and_eq_iff "1_2-class" "12CLASS" (by decide) (by decide)
  refine ⟨hlegal .python, mt hsnake.mp (by decide), ?_⟩
  exact (hcamel .javaScript (by decide)).mpr (by decide)

end Naming
end ClientForge
