import ClientForge.Naming.Style
import ClientForge.Proofs.Basics
import ClientForge.Proofs.Naming.Words
/-!
# Identifiers

When two names get one identifier.  A name with words is put into a case style first, and the
result begins and ends with a letter or digit (`Solid`).  Escaping adds underscores at the ends
only, so it can be undone (`escape_inj`), whatever words are reserved.  A name without words is kept
as it is, and no language reserves such a name.

The underscores of the snake style show where the words end, so it tells two names apart whenever
any style does; the camel style does not (`identifier_eq_of_identifier_eq`).
-/

namespace ClientForge
namespace Naming

/-! ## Words in small letters -/

/-- The words of a name in small letters. -/
def smallWords (name : String) : List (List Char) :=
  (wordsOf name.toList).map small

/-- Words in small letters are still words. -/
theorem word_of_mem_smallWords {name : String} {word : List Char} (h : word ∈ smallWords name) :
    word ≠ [] ∧ ∀ c ∈ word, Text.isWordChar c = true := by
  obtain ⟨original, horiginal, rfl⟩ := List.mem_map.mp h
  obtain ⟨hne, hchars⟩ := word_of_mem_wordsOf horiginal
  constructor
  · simpa [small] using hne
  · intro c hc
    obtain ⟨d, hd, rfl⟩ := List.mem_map.mp hc
    exact Text.isWordChar_lowerChar (hchars d hd)

theorem smallWords_eq_nil_iff {name : String} :
    smallWords name = [] ↔ ∀ c ∈ name.toList, Text.isWordChar c = false := by
  rw [smallWords, List.map_eq_nil_iff, wordsOf_eq_nil_iff]

/-- Words in small letters joined in the camel style. -/
def camelOf : List (List Char) → List Char
  | [] => []
  | word :: rest => word ++ rest.flatMap capitalized

/-- Words in small letters joined in a case style. -/
def joinedIn : Casing → List (List Char) → List Char
  | .camel, words => camelOf words
  | .snake, words => ['_'].intercalate words

theorem joinCamel_eq (words : List (List Char)) : joinCamel words = camelOf (words.map small) := by
  cases words with
  | nil => rfl
  | cons word rest => rw [joinCamel, List.map_cons, camelOf, List.flatMap_map]

theorem joinSnake_eq (words : List (List Char)) :
    joinSnake words = ['_'].intercalate (words.map small) := by
  fun_induction joinSnake words with
  | case1 => rfl
  | case2 word => simp
  | case3 word rest hrest ih =>
      obtain ⟨next, more, rfl⟩ := List.exists_cons_of_ne_nil hrest
      rw [ih, List.map_cons, List.map_cons, List.map_cons, List.intercalate_cons_cons,
        List.append_assoc]
      rfl

/-- A formatted name is made from its words in small letters. -/
theorem toList_format {casing : Casing} {name : String} (h : smallWords name ≠ []) :
    (casing.format name).toList = joinedIn casing (smallWords name) := by
  unfold smallWords at h ⊢
  unfold Casing.format
  split
  · rename_i hnil
    rw [hnil] at h
    exact absurd rfl h
  · cases casing with
    | camel => rw [String.toList_ofList, joinCamel_eq, joinedIn]
    | snake => rw [String.toList_ofList, joinSnake_eq, joinedIn]

theorem format_of_smallWords_eq_nil {casing : Casing} {name : String} (h : smallWords name = []) :
    casing.format name = name := by
  unfold Casing.format
  rw [List.map_eq_nil_iff.mp h]

/-- The snake style keeps the words apart. -/
theorem smallWords_eq_of_snake {a b : String} (ha : smallWords a ≠ []) (hb : smallWords b ≠ [])
    (h : Casing.snake.format a = Casing.snake.format b) : smallWords a = smallWords b := by
  have hsplit : ∀ {name : String}, smallWords name ≠ [] →
      (Casing.snake.format name).toList.splitOn '_' = smallWords name := by
    intro name hname
    rw [toList_format hname, joinedIn, List.splitOn_intercalate _ _ hname]
    intro word hword hmem
    exact Text.ne_underscore_of_isWordChar ((word_of_mem_smallWords hword).2 _ hmem) rfl
  rw [← hsplit ha, ← hsplit hb, h]

/-! ## Solid texts -/

/-- A text that begins and ends with a letter or digit. -/
structure Solid (cs : List Char) : Prop where
  head : ∃ c rest, cs = c :: rest ∧ Text.isWordChar c = true
  last : ∃ init c, cs = init ++ [c] ∧ Text.isWordChar c = true

theorem solid_of_forall {cs : List Char} (hne : cs ≠ [])
    (h : ∀ c ∈ cs, Text.isWordChar c = true) : Solid cs where
  head := by
    obtain ⟨c, rest, rfl⟩ := List.exists_cons_of_ne_nil hne
    exact ⟨c, rest, rfl, h c List.mem_cons_self⟩
  last := by
    refine ⟨cs.dropLast, cs.getLast hne, (List.dropLast_append_getLast hne).symm, ?_⟩
    exact h _ (List.getLast_mem hne)

/-- Solid ends make a solid text, whatever stands between them. -/
theorem Solid.append {first last : List Char} (hfirst : Solid first) (hlast : Solid last)
    (middle : List Char) : Solid (first ++ middle ++ last) where
  head := by
    obtain ⟨c, rest, rfl, hc⟩ := hfirst.head
    exact ⟨c, rest ++ middle ++ last, rfl, hc⟩
  last := by
    obtain ⟨init, c, rfl, hc⟩ := hlast.last
    exact ⟨first ++ middle ++ init, c, by simp, hc⟩

section Closed

variable {P : Char → Prop} (hP : ∀ c, P c → P (Text.upperChar c)) {c : Char}

include hP

/-- What capitals have whenever their letters do, a capitalised word has whenever the word does. -/
theorem of_mem_capitalized {word : List Char} (hword : ∀ d ∈ word, P d)
    (hc : c ∈ capitalized word) : P c := by
  cases word with
  | nil => cases hc
  | cons d rest =>
      rw [List.forall_mem_cons] at hword
      rcases List.mem_cons.mp hc with rfl | hrest
      · exact hP d hword.1
      · exact hword.2 c hrest

/-- The same for words in the camel style. -/
theorem of_mem_camelOf {words : List (List Char)} (hwords : ∀ word ∈ words, ∀ d ∈ word, P d)
    (hc : c ∈ camelOf words) : P c := by
  cases words with
  | nil => cases hc
  | cons word rest =>
      rw [List.forall_mem_cons] at hwords
      rcases List.mem_append.mp hc with hc | hc
      · exact hwords.1 c hc
      · obtain ⟨other, hother, hc⟩ := List.mem_flatMap.mp hc
        exact of_mem_capitalized hP (hwords.2 other hother) hc

end Closed

theorem isWordChar_of_mem_capitalized {word : List Char} {c : Char}
    (hword : ∀ d ∈ word, Text.isWordChar d = true) (hc : c ∈ capitalized word) :
    Text.isWordChar c = true :=
  of_mem_capitalized (P := fun d => Text.isWordChar d = true)
    (fun _ => Text.isWordChar_upperChar) hword hc

/-- Below the root, a class name is made of letters and digits. -/
theorem mem_or_isWordChar_of_mem_className {rootName : String} {names : List String} {c : Char}
    (h : c ∈ (className rootName names).toList) :
    c ∈ rootName.toList ∨ Text.isWordChar c = true := by
  rw [className, String.toList_append, List.mem_append] at h
  refine h.imp_right fun h => ?_
  rw [String.toList_join, List.flatMap_map] at h
  obtain ⟨name, -, h⟩ := List.mem_flatMap.mp h
  rw [pascalCase, String.toList_ofList] at h
  obtain ⟨word, hword, h⟩ := List.mem_flatMap.mp h
  exact isWordChar_of_mem_capitalized (word_of_mem_wordsOf hword).2 h

/-- Nothing but letters and digits in the camel style. -/
theorem isWordChar_of_mem_camelOf {words : List (List Char)} {c : Char}
    (hwords : ∀ word ∈ words, ∀ d ∈ word, Text.isWordChar d = true) (hc : c ∈ camelOf words) :
    Text.isWordChar c = true :=
  of_mem_camelOf (P := fun d => Text.isWordChar d = true)
    (fun _ => Text.isWordChar_upperChar) hwords hc

/-- Joined words are solid in every style. -/
theorem solid_joinedIn {casing : Casing} {words : List (List Char)} (hne : words ≠ [])
    (hwords : ∀ word ∈ words, word ≠ [] ∧ ∀ c ∈ word, Text.isWordChar c = true) :
    Solid (joinedIn casing words) := by
  cases casing with
  | camel =>
      refine solid_of_forall ?_ fun c hc =>
        isWordChar_of_mem_camelOf (fun word hword => (hwords word hword).2) hc
      obtain ⟨word, rest, rfl⟩ := List.exists_cons_of_ne_nil hne
      exact List.append_ne_nil_of_left_ne_nil (hwords word List.mem_cons_self).1 _
  | snake =>
      induction words with
      | nil => exact absurd rfl hne
      | cons word rest ih =>
          obtain ⟨hword, hrest⟩ := List.forall_mem_cons.mp hwords
          have hsolid := solid_of_forall hword.1 hword.2
          cases rest with
          | nil => simpa [joinedIn] using hsolid
          | cons next more =>
              rw [joinedIn, List.intercalate_cons_cons]
              exact hsolid.append (ih (List.cons_ne_nil _ _) hrest) ['_']

/-- A formatted name with words is solid. -/
theorem solid_format {casing : Casing} {name : String} (h : smallWords name ≠ []) :
    Solid (casing.format name).toList := by
  rw [toList_format h]
  exact solid_joinedIn h fun _ hword => word_of_mem_smallWords hword

/-- Nothing but letters, digits and underscores in any style. -/
theorem isIdentifierChar_of_mem_joinedIn {casing : Casing} {words : List (List Char)} {c : Char}
    (hwords : ∀ word ∈ words, ∀ d ∈ word, Text.isWordChar d = true)
    (hc : c ∈ joinedIn casing words) : Text.isIdentifierChar c = true := by
  cases casing with
  | camel => exact Text.isIdentifierChar_of_isWordChar (isWordChar_of_mem_camelOf hwords hc)
  | snake =>
      induction words with
      | nil => cases hc
      | cons word rest ih =>
          obtain ⟨hword, hrest⟩ := List.forall_mem_cons.mp hwords
          cases rest with
          | nil =>
              rw [joinedIn, List.intercalate_singleton] at hc
              exact Text.isIdentifierChar_of_isWordChar (hword c hc)
          | cons next more =>
              rw [joinedIn, List.intercalate_cons_cons] at hc
              rcases List.mem_append.mp hc with hfront | hback
              · rcases List.mem_append.mp hfront with hc | hc
                · exact Text.isIdentifierChar_of_isWordChar (hword c hc)
                · rw [List.mem_singleton.mp hc]
                  decide
              · exact ih hrest hback

/-! ## Escaping -/

/-- A text without the underscores at its ends. -/
def trimmed (cs : List Char) : List Char :=
  ((cs.dropWhile (· == '_')).reverse.dropWhile (· == '_')).reverse

/-- Underscores before a letter or digit are dropped, and nothing else. -/
private theorem dropWhile_underscore {before rest : List Char} {c : Char}
    (hbefore : ∀ d ∈ before, d = '_') (hc : Text.isWordChar c = true) :
    (before ++ c :: rest).dropWhile (· == '_') = c :: rest := by
  rw [List.dropWhile_append_of_pos (by simpa using hbefore), List.dropWhile_cons_of_neg]
  simpa using Text.ne_underscore_of_isWordChar hc

theorem trimmed_eq {before cs after : List Char} (hbefore : ∀ d ∈ before, d = '_')
    (hsolid : Solid cs) (hafter : ∀ d ∈ after, d = '_') :
    trimmed (before ++ cs ++ after) = cs := by
  obtain ⟨c, rest, hhead, hc⟩ := hsolid.head
  obtain ⟨init, d, hlast, hd⟩ := hsolid.last
  have hfront : (before ++ cs ++ after).dropWhile (· == '_') = cs ++ after := by
    rw [hhead, List.append_assoc, List.cons_append]
    exact dropWhile_underscore hbefore hc
  have hback : (cs ++ after).reverse = after.reverse ++ d :: init.reverse := by
    rw [hlast]
    simp
  rw [trimmed, hfront, hback, dropWhile_underscore (by simpa using hafter) hd, hlast]
  simp

/-- The digit in front is looked at first, and only then the reserved words. -/
theorem escape_eq (reserved : List String) (s : String) :
    escape reserved s =
      if reserved.contains (escape [] s) then escape [] s ++ "_" else escape [] s := rfl

private theorem exists_toList_escape_nil (s : String) :
    ∃ before, (∀ d ∈ before, d = '_') ∧ (escape [] s).toList = before ++ s.toList := by
  unfold escape
  by_cases hdigit : s.toList.head?.any Text.isDigit = true
  · exact ⟨['_'], by simp, by simp [hdigit]⟩
  · exact ⟨[], by simp, by simp [hdigit]⟩

/-- Escaping adds underscores at the ends and nothing else. -/
theorem exists_toList_escape (reserved : List String) (s : String) :
    ∃ before after, (∀ d ∈ before, d = '_') ∧ (∀ d ∈ after, d = '_') ∧
      (escape reserved s).toList = before ++ s.toList ++ after := by
  obtain ⟨before, hbefore, heq⟩ := exists_toList_escape_nil s
  rw [escape_eq]
  split
  · refine ⟨before, ['_'], hbefore, by simp, ?_⟩
    rw [String.toList_append, heq]
    rfl
  · refine ⟨before, [], hbefore, by simp, ?_⟩
    rw [heq, List.append_nil]

/-- Escaping tells solid texts apart. -/
theorem escape_inj {reserved : List String} {a b : String} (ha : Solid a.toList)
    (hb : Solid b.toList) : escape reserved a = escape reserved b ↔ a = b := by
  constructor
  · intro h
    obtain ⟨before, after, hbefore, hafter, heq⟩ := exists_toList_escape reserved a
    obtain ⟨before', after', hbefore', hafter', heq'⟩ := exists_toList_escape reserved b
    -- what was added comes off again, since a solid text begins and ends with a letter or digit
    have htrim : trimmed (escape reserved a).toList = trimmed (escape reserved b).toList := by
      rw [h]
    rw [heq, heq', trimmed_eq hbefore ha hafter, trimmed_eq hbefore' hb hafter'] at htrim
    exact String.toList_inj.mp htrim
  · rintro rfl
    rfl

/-! ## Identifiers -/

/-- Every reserved word has a letter. -/
private theorem exists_isWordChar_of_reserved (language : Language) :
    ∀ word ∈ (styleOf language).reserved, word.toList.any Text.isWordChar = true := by
  cases language with
  | javaScript => decide
  | typeScript => decide
  | python => decide

/-- An identifier has letters and digits only if the name has. -/
private theorem isWordChar_escape_iff {reserved : List String} {s : String} :
    (∀ c ∈ (escape reserved s).toList, Text.isWordChar c = false) ↔
      ∀ c ∈ s.toList, Text.isWordChar c = false := by
  have hunderscore : ∀ {cs : List Char}, (∀ d ∈ cs, d = '_') →
      ∀ c ∈ cs, Text.isWordChar c = false := by
    intro cs hcs c hc
    rw [hcs c hc]
    decide
  obtain ⟨before, after, hbefore, hafter, heq⟩ := exists_toList_escape reserved s
  rw [heq, List.forall_mem_append, List.forall_mem_append]
  constructor
  · exact fun h => h.1.2
  · exact fun h => ⟨⟨hunderscore hbefore, h⟩, hunderscore hafter⟩

/-- A name that gives an identifier: it has a word, or is an identifier already. -/
def HasIdentifier (name : String) : Prop :=
  smallWords name ≠ [] ∨ Text.isIdentifier name.toList = true

/-- Identifiers have letters, digits and underscores only. -/
theorem isIdentifierChar_of_mem_identifier {style : Style} {name : String} {c : Char}
    (h : HasIdentifier name) (hc : c ∈ (style.identifier name).toList) :
    Text.isIdentifierChar c = true := by
  have hunderscore : ∀ {cs : List Char}, (∀ d ∈ cs, d = '_') → c ∈ cs →
      Text.isIdentifierChar c = true := by
    intro cs hcs hmem
    rw [hcs c hmem]
    decide
  have hformat : c ∈ (style.casing.format name).toList → Text.isIdentifierChar c = true := by
    intro hmem
    by_cases hwords : smallWords name = []
    · rw [format_of_smallWords_eq_nil hwords] at hmem
      exact Text.isIdentifierChar_of_isIdentifier (h.resolve_left (not_not_intro hwords)) hmem
    · rw [toList_format hwords] at hmem
      exact isIdentifierChar_of_mem_joinedIn
        (fun word hword => (word_of_mem_smallWords hword).2) hmem
  obtain ⟨before, after, hbefore, hafter, heq⟩ :=
    exists_toList_escape style.reserved (style.casing.format name)
  rw [Style.identifier, heq] at hc
  rcases List.mem_append.mp hc with hfront | hback
  · exact (List.mem_append.mp hfront).elim (hunderscore hbefore) hformat
  · exact hunderscore hafter hback

/-- No language reserves a name without words. -/
theorem identifier_of_smallWords_eq_nil {language : Language} {name : String}
    (h : smallWords name = []) : (styleOf language).identifier name = escape [] name := by
  have hplain : ∀ c ∈ (escape [] name).toList, Text.isWordChar c = false :=
    isWordChar_escape_iff.mpr (smallWords_eq_nil_iff.mp h)
  have hfree : escape [] name ∉ (styleOf language).reserved := by
    intro hmem
    obtain ⟨c, hc, hword⟩ := List.any_eq_true.mp (exists_isWordChar_of_reserved language _ hmem)
    rw [hplain c hc] at hword
    cases hword
  rw [Style.identifier, format_of_smallWords_eq_nil h, escape_eq, if_neg (by simpa using hfree)]

/-- Names with words get one identifier exactly if they are formatted alike. -/
theorem identifier_eq_iff_format_eq {style : Style} {a b : String} (ha : smallWords a ≠ [])
    (hb : smallWords b ≠ []) :
    style.identifier a = style.identifier b ↔ style.casing.format a = style.casing.format b :=
  escape_inj (solid_format ha) (solid_format hb)

/-- A name without words is one whose identifier has no letters and digits. -/
theorem smallWords_eq_nil_iff_identifier (style : Style) {name : String} :
    smallWords name = [] ↔
      ∀ c ∈ (style.identifier name).toList, Text.isWordChar c = false := by
  rw [Style.identifier, isWordChar_escape_iff]
  by_cases hwords : smallWords name = []
  · rw [format_of_smallWords_eq_nil hwords, smallWords_eq_nil_iff]
  · refine iff_of_false hwords ?_
    intro hplain
    have hsolid : Solid (style.casing.format name).toList := solid_format hwords
    obtain ⟨c, rest, hcons, hc⟩ := hsolid.head
    rw [hcons] at hplain
    rw [hplain c List.mem_cons_self] at hc
    cases hc

/-- Whether a name has words can be seen from its identifier. -/
theorem smallWords_eq_nil_iff_of_identifier_eq {style : Style} {a b : String}
    (h : style.identifier a = style.identifier b) : smallWords a = [] ↔ smallWords b = [] := by
  rw [smallWords_eq_nil_iff_identifier style, smallWords_eq_nil_iff_identifier style, h]

/-- What one language tells apart is told apart by every language of the same case style, and by
those of the snake style. -/
theorem identifier_eq_of_identifier_eq {language other : Language} {a b : String}
    (hcasing : (styleOf language).casing = (styleOf other).casing ∨
      (styleOf language).casing = .snake)
    (h : (styleOf language).identifier a = (styleOf language).identifier b) :
    (styleOf other).identifier a = (styleOf other).identifier b := by
  have hwords := smallWords_eq_nil_iff_of_identifier_eq h
  by_cases ha : smallWords a = []
  -- without words no case style applies and no word is reserved
  · have hb := hwords.mp ha
    rw [identifier_of_smallWords_eq_nil ha, identifier_of_smallWords_eq_nil hb] at h ⊢
    exact h
  · have hb : smallWords b ≠ [] := fun hnil => ha (hwords.mpr hnil)
    rw [identifier_eq_iff_format_eq ha hb] at h ⊢
    rcases hcasing with hcasing | hcasing
    · rw [← hcasing]
      exact h
    · rw [hcasing] at h
      apply String.toList_inj.mp
      rw [toList_format ha, toList_format hb, smallWords_eq_of_snake ha hb h]

end Naming
end ClientForge
