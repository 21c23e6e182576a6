import Mathlib.Data.List.SplitBy
import ClientForge.Proofs.Naming.Identifier
/-!
# Words in the camel style

What the camel style shows of its words.  A word of small letters begins with a capital, unless it
is the first, and a number has no letters.  So the text can be cut again where a capital stands and
where digits begin or end (`map_small_splitBy_camelOf`).  It does not show where one number ends and
the next one begins: words look alike exactly if they agree once neighbouring numbers are joined
(`camelOf_eq_iff`).
-/

namespace ClientForge
namespace Naming

/-! ## Kinds of words -/

/-- A word of small letters, or a number. -/
def Uniform (word : List Char) : Prop :=
  word ≠ [] ∧ ((∀ c ∈ word, Text.isLower c = true) ∨ ∀ c ∈ word, Text.isNumeral c = true)

/-- Whether a word has digits only. -/
def isNumber (word : List Char) : Bool :=
  word.all Text.isNumeral

theorem isNumber_iff {word : List Char} :
    isNumber word = true ↔ ∀ c ∈ word, Text.isNumeral c = true :=
  List.all_eq_true

theorem isNumber_append (word next : List Char) :
    isNumber (word ++ next) = (isNumber word && isNumber next) :=
  List.all_append

/-- A word that is no number has no digit. -/
theorem Uniform.isLower {word : List Char} (h : Uniform word) (hnumber : isNumber word = false) :
    ∀ c ∈ word, Text.isLower c = true := by
  refine h.2.resolve_right fun hdigits => ?_
  rw [isNumber_iff.mpr hdigits] at hnumber
  cases hnumber

/-- A word with a digit is a number. -/
theorem Uniform.isNumber_of_mem {word : List Char} {c : Char} (h : Uniform word) (hc : c ∈ word)
    (hdigit : Text.isNumeral c = true) : isNumber word = true := by
  rcases h.2 with hlower | hdigits
  · rw [Text.isNumeral_eq_false_of_isLower (hlower c hc)] at hdigit
    cases hdigit
  · exact isNumber_iff.mpr hdigits

theorem Uniform.isUpper_eq_false {word : List Char} (h : Uniform word) :
    ∀ c ∈ word, Text.isUpper c = false := by
  intro c hc
  rcases h.2 with hlower | hdigits
  · exact Text.isUpper_eq_false_of_isLower (hlower c hc)
  · exact Text.isUpper_eq_false_of_isNumeral (hdigits c hc)

/-- The words of a name in small letters are such words. -/
theorem uniform_of_mem_smallWords {name : String} {word : List Char}
    (h : word ∈ smallWords name) : Uniform word := by
  refine ⟨(word_of_mem_smallWords h).1, ?_⟩
  obtain ⟨original, horiginal, rfl⟩ := List.mem_map.mp h
  have hchars : ∀ {P : Char → Prop}, (∀ c ∈ original, P (Text.lowerChar c)) →
      ∀ c ∈ small original, P c := by
    intro P hP c hc
    obtain ⟨d, hd, rfl⟩ := List.mem_map.mp hc
    exact hP d hd
  cases form_of_mem_wordsOf horiginal with
  | number nonempty numerals =>
      refine Or.inr (hchars fun c hc => ?_)
      rw [Text.lowerChar_eq_self (Text.isUpper_eq_false_of_isNumeral (numerals c hc))]
      exact numerals c hc
  | capitals nonempty uppers =>
      exact Or.inl (hchars fun c hc => Text.isLower_lowerChar (uppers c hc))
  | lowers upper nonempty lowers =>
      refine Or.inl (hchars fun c hc => ?_)
      rcases List.mem_append.mp hc with hfirst | hrest
      · exact Text.isLower_lowerChar (upper c (Option.mem_toList.mp hfirst))
      · rw [Text.lowerChar_eq_self (Text.isUpper_eq_false_of_isLower (lowers c hrest))]
        exact lowers c hrest

/-! ## Small letters and capitals -/

theorem small_eq_self {word : List Char} (h : ∀ c ∈ word, Text.isUpper c = false) :
    small word = word := by
  have hchar : ∀ c ∈ word, Text.lowerChar c = id c := fun c hc => Text.lowerChar_eq_self (h c hc)
  rw [small, List.map_congr_left hchar, List.map_id]

/-- A number has no capital. -/
theorem capitalized_of_isNumber {word : List Char} (h : isNumber word = true) :
    capitalized word = word := by
  cases word with
  | nil => rfl
  | cons c rest =>
      have hc := isNumber_iff.mp h c List.mem_cons_self
      have hlower : ¬ Text.isLower c = true := by
        intro hlower
        rw [Text.isNumeral_eq_false_of_isLower hlower] at hc
        cases hc
      rw [capitalized, Text.upperChar, if_neg hlower]

theorem capitalized_append {word : List Char} (h : word ≠ []) (next : List Char) :
    capitalized (word ++ next) = capitalized word ++ next := by
  cases word with
  | nil => exact absurd rfl h
  | cons c rest => rfl

theorem small_capitalized {word : List Char} (h : Uniform word) :
    small (capitalized word) = word := by
  cases hnumber : isNumber word with
  | true => rw [capitalized_of_isNumber hnumber, small_eq_self h.isUpper_eq_false]
  | false =>
      cases word with
      | nil => rfl
      | cons c rest =>
          obtain ⟨hc, hrest⟩ := List.forall_mem_cons.mp (h.isLower hnumber)
          have hsmall : small (capitalized (c :: rest)) =
              Text.lowerChar (Text.upperChar c) :: small rest := rfl
          rw [hsmall, Text.lowerChar_upperChar hc, small_eq_self fun d hd =>
            Text.isUpper_eq_false_of_isLower (hrest d hd)]

/-! ## Joined numbers -/

/-- A word before others: two numbers in a row become one. -/
def putWord (word : List Char) : List (List Char) → List (List Char)
  | [] => [word]
  | next :: rest =>
      if isNumber word && isNumber next then (word ++ next) :: rest else word :: next :: rest

/-- The words with neighbouring numbers joined. -/
def joinNumbers (words : List (List Char)) : List (List Char) :=
  words.foldr putWord []

theorem joinNumbers_cons (word : List Char) (rest : List (List Char)) :
    joinNumbers (word :: rest) = putWord word (joinNumbers rest) := rfl

/-- Without numbers there is nothing to join. -/
theorem joinNumbers_eq_self {words : List (List Char)}
    (h : ∀ word ∈ words, isNumber word = false) : joinNumbers words = words := by
  induction words with
  | nil => rfl
  | cons word rest ih =>
      obtain ⟨hword, hrest⟩ := List.forall_mem_cons.mp h
      rw [joinNumbers_cons, ih hrest]
      cases rest with
      | nil => rfl
      | cons next more => simp [putWord, hword]

/-- Where no number comes out, nothing was joined. -/
theorem joinNumbers_eq_self_of_joined {words : List (List Char)}
    (h : ∀ word ∈ joinNumbers words, isNumber word = false) : joinNumbers words = words := by
  induction words with
  | nil => rfl
  | cons word rest ih =>
      rw [joinNumbers_cons] at h ⊢
      cases hrest : joinNumbers rest with
      | nil =>
          rw [hrest] at ih
          rw [← ih (by simp)]
          rfl
      | cons next more =>
          rw [hrest] at ih h
          rw [putWord] at h ⊢
          split at h
          · rename_i hnumbers
            have hjoined := h _ List.mem_cons_self
            rw [isNumber_append, hnumbers] at hjoined
            cases hjoined
          · rename_i hnumbers
            rw [if_neg hnumbers, ih (List.forall_mem_cons.mp h).2]

theorem uniform_putWord {word : List Char} {words : List (List Char)} (hword : Uniform word)
    (hwords : ∀ other ∈ words, Uniform other) : ∀ other ∈ putWord word words, Uniform other := by
  cases words with
  | nil => exact List.forall_mem_singleton.mpr hword
  | cons next rest =>
      rw [putWord]
      split
      · rename_i hnumbers
        rw [← isNumber_append] at hnumbers
        refine List.forall_mem_cons.mpr ⟨⟨?_, Or.inr (isNumber_iff.mp hnumbers)⟩,
          (List.forall_mem_cons.mp hwords).2⟩
        exact List.append_ne_nil_of_left_ne_nil hword.1 _
      · exact List.forall_mem_cons.mpr ⟨hword, hwords⟩

theorem uniform_joinNumbers {words : List (List Char)} (h : ∀ word ∈ words, Uniform word) :
    ∀ word ∈ joinNumbers words, Uniform word := by
  induction words with
  | nil => exact h
  | cons word rest ih =>
      obtain ⟨hword, hrest⟩ := List.forall_mem_cons.mp h
      exact uniform_putWord hword (ih hrest)

/-- Neighbours of which at most one is a number. -/
def Apart (word next : List Char) : Prop :=
  ¬ (isNumber word = true ∧ isNumber next = true)

theorem isChain_apart_putWord {word : List Char} {words : List (List Char)}
    (h : words.IsChain Apart) : (putWord word words).IsChain Apart := by
  cases words with
  | nil => exact List.isChain_singleton word
  | cons next rest =>
      rw [putWord]
      split
      · rename_i hnumbers
        obtain ⟨hword, hnext⟩ := Bool.and_eq_true_iff.mp hnumbers
        -- the joined number has the neighbour of its last part
        cases rest with
        | nil => exact List.isChain_singleton _
        | cons third more =>
            rw [List.isChain_cons_cons] at h ⊢
            refine ⟨fun hboth => h.1 ⟨hnext, hboth.2⟩, h.2⟩
      · rename_i hnumbers
        rw [Bool.and_eq_true] at hnumbers
        exact List.isChain_cons_cons.mpr ⟨hnumbers, h⟩

/-- No two numbers are left next to each other. -/
theorem isChain_apart_joinNumbers (words : List (List Char)) :
    (joinNumbers words).IsChain Apart := by
  induction words with
  | nil => exact List.isChain_nil
  | cons word rest ih => exact isChain_apart_putWord ih

theorem flatMap_capitalized_putWord {word : List Char} (hword : word ≠ [])
    (words : List (List Char)) :
    (putWord word words).flatMap capitalized = capitalized word ++ words.flatMap capitalized := by
  cases words with
  | nil => rfl
  | cons next rest =>
      rw [putWord]
      split
      · rename_i hnumbers
        rw [List.flatMap_cons, List.flatMap_cons, capitalized_append hword,
          capitalized_of_isNumber (Bool.and_eq_true_iff.mp hnumbers).2, List.append_assoc]
      · rfl

theorem flatMap_capitalized_joinNumbers {words : List (List Char)}
    (h : ∀ word ∈ words, Uniform word) :
    (joinNumbers words).flatMap capitalized = words.flatMap capitalized := by
  induction words with
  | nil => rfl
  | cons word rest ih =>
      obtain ⟨hword, hrest⟩ := List.forall_mem_cons.mp h
      rw [joinNumbers_cons, flatMap_capitalized_putWord hword.1, ih hrest, List.flatMap_cons]

/-- The camel style does not show where numbers were joined. -/
theorem camelOf_joinNumbers {words : List (List Char)} (h : ∀ word ∈ words, Uniform word) :
    camelOf (joinNumbers words) = camelOf words := by
  cases words with
  | nil => rfl
  | cons word rest =>
      obtain ⟨-, hrest⟩ := List.forall_mem_cons.mp h
      have hjoined := flatMap_capitalized_joinNumbers hrest
      -- the first word takes no capital, but then a number has none either
      rw [joinNumbers_cons, camelOf]
      cases hnext : joinNumbers rest with
      | nil =>
          rw [hnext] at hjoined
          rw [← hjoined]
          rfl
      | cons next more =>
          rw [hnext, List.flatMap_cons] at hjoined
          rw [putWord]
          split
          · rename_i hnumbers
            rw [capitalized_of_isNumber (Bool.and_eq_true_iff.mp hnumbers).2] at hjoined
            rw [camelOf, ← hjoined, List.append_assoc]
          · rw [camelOf, ← hjoined, List.flatMap_cons]

/-! ## Reading words back -/

/-- Whether a word goes on at the second of two characters in the camel style. -/
def goesOn (c d : Char) : Bool :=
  if Text.isNumeral c then Text.isNumeral d else Text.isLower d

private theorem isChain_goesOn_letters {c : Char} {cs : List Char} (hc : Text.isNumeral c = false)
    (h : ∀ d ∈ cs, Text.isLower d = true) : (c :: cs).IsChain (fun x y => goesOn x y = true) := by
  induction cs generalizing c with
  | nil => exact List.isChain_singleton c
  | cons d rest ih =>
      obtain ⟨hd, hrest⟩ := List.forall_mem_cons.mp h
      refine List.isChain_cons_cons.mpr ⟨?_, ih (Text.isNumeral_eq_false_of_isLower hd) hrest⟩
      simp [goesOn, hc, hd]

private theorem isChain_goesOn_digits {cs : List Char} (h : ∀ d ∈ cs, Text.isNumeral d = true) :
    cs.IsChain (fun x y => goesOn x y = true) := by
  induction cs with
  | nil => exact List.isChain_nil
  | cons c cs ih =>
      obtain ⟨hc, hcs⟩ := List.forall_mem_cons.mp h
      cases cs with
      | nil => exact List.isChain_singleton c
      | cons d rest =>
          refine List.isChain_cons_cons.mpr ⟨?_, ih hcs⟩
          simp [goesOn, hc, hcs d List.mem_cons_self]

/-- A word goes on to its end, with or without a capital. -/
private theorem isChain_goesOn {word : List Char} (h : Uniform word) :
    word.IsChain (fun x y => goesOn x y = true) ∧
      (capitalized word).IsChain (fun x y => goesOn x y = true) := by
  cases hnumber : isNumber word with
  | true =>
      rw [capitalized_of_isNumber hnumber]
      exact ⟨isChain_goesOn_digits (isNumber_iff.mp hnumber),
        isChain_goesOn_digits (isNumber_iff.mp hnumber)⟩
  | false =>
      obtain ⟨c, cs, rfl⟩ := List.exists_cons_of_ne_nil h.1
      obtain ⟨hc, hcs⟩ := List.forall_mem_cons.mp (h.isLower hnumber)
      have hdigit := Text.isNumeral_eq_false_of_isLower hc
      refine ⟨isChain_goesOn_letters hdigit hcs, isChain_goesOn_letters ?_ hcs⟩
      rw [Text.isNumeral_upperChar, hdigit]

/-- A word does not go on at the beginning of the next one. -/
private theorem goesOn_capitalized {c d : Char} {cs : List Char} (h : Uniform (d :: cs))
    (hc : Text.isNumeral c = true → isNumber (d :: cs) = false) :
    goesOn c (Text.upperChar d) = false := by
  rw [goesOn, Text.isNumeral_upperChar]
  cases hnumber : isNumber (d :: cs) with
  | true =>
      have hd := isNumber_iff.mp hnumber d List.mem_cons_self
      have hnot : ¬ Text.isNumeral c = true := fun hdigit => by
        rw [hc hdigit] at hnumber
        cases hnumber
      rw [if_neg hnot, ← Bool.not_eq_true]
      intro hlower
      rw [← Text.isNumeral_upperChar, Text.isNumeral_eq_false_of_isLower hlower] at hd
      cases hd
  | false =>
      have hd := h.isLower hnumber d List.mem_cons_self
      split
      · exact Text.isNumeral_eq_false_of_isLower hd
      · rw [← Bool.not_eq_true]
        intro hlower
        have hupper := Text.isUpper_upperChar hd
        rw [Text.isUpper_eq_false_of_isLower hlower] at hupper
        cases hupper

/-- Between words of which at most one is a number no word goes on. -/
private theorem isChain_capitalized {word front : List Char} {rest : List (List Char)}
    (hfront : front ≠ []) (hdigits : ∀ c ∈ front, Text.isNumeral c = true → isNumber word = true)
    (happart : (word :: rest).IsChain Apart) (hrest : ∀ other ∈ rest, Uniform other) :
    (front :: rest.map capitalized).IsChain fun a b =>
      ∃ ha hb, goesOn (a.getLast ha) (b.head hb) = false := by
  induction rest generalizing word front with
  | nil => exact List.isChain_singleton front
  | cons next more ih =>
      obtain ⟨hnext, hmore⟩ := List.forall_mem_cons.mp hrest
      obtain ⟨hfirst, happart⟩ := List.isChain_cons_cons.mp happart
      obtain ⟨d, cs, rfl⟩ := List.exists_cons_of_ne_nil hnext.1
      have hcapital : capitalized (d :: cs) ≠ [] := List.cons_ne_nil _ _
      refine List.isChain_cons_cons.mpr ⟨⟨hfront, hcapital, ?_⟩, ih hcapital ?_ happart hmore⟩
      · refine goesOn_capitalized hnext fun hdigit => Bool.eq_false_iff.mpr fun hnumber => ?_
        exact hfirst ⟨hdigits _ (List.getLast_mem hfront) hdigit, hnumber⟩
      · intro c hc
        refine of_mem_capitalized (P := fun c => Text.isNumeral c = true →
          isNumber (d :: cs) = true) (fun x hx => ?_) (fun x => hnext.isNumber_of_mem) hc
        rwa [Text.isNumeral_upperChar]

/-- Capitals and the ends of numbers show where the words begin. -/
private theorem splitBy_camelOf {word : List Char} {rest : List (List Char)}
    (h : ∀ other ∈ word :: rest, Uniform other) (happart : (word :: rest).IsChain Apart) :
    (camelOf (word :: rest)).splitBy goesOn = word :: rest.map capitalized := by
  obtain ⟨hword, hrest⟩ := List.forall_mem_cons.mp h
  have hflatten : camelOf (word :: rest) = (word :: rest.map capitalized).flatten := by
    rw [camelOf, List.flatMap_def, List.flatten_cons]
  rw [hflatten]
  refine List.splitBy_flatten ?_ ?_
    (isChain_capitalized hword.1 (fun _ => hword.isNumber_of_mem) happart hrest)
  · intro hnil
    rcases List.mem_cons.mp hnil with hnil | hnil
    · exact hword.1 hnil.symm
    · obtain ⟨other, hother, heq⟩ := List.mem_map.mp hnil
      obtain ⟨c, cs, rfl⟩ := List.exists_cons_of_ne_nil (hrest other hother).1
      cases heq
  · intro part hpart
    rcases List.mem_cons.mp hpart with rfl | hpart
    · exact (isChain_goesOn hword).1
    · obtain ⟨other, hother, rfl⟩ := List.mem_map.mp hpart
      exact (isChain_goesOn (hrest other hother)).2

/-- Words can be read back from the camel style if no two numbers stand next to each other. -/
theorem map_small_splitBy_camelOf {words : List (List Char)} (h : ∀ word ∈ words, Uniform word)
    (happart : words.IsChain Apart) : ((camelOf words).splitBy goesOn).map small = words := by
  cases words with
  | nil => rfl
  | cons word rest =>
      obtain ⟨hword, hrest⟩ := List.forall_mem_cons.mp h
      have hrestored : ∀ other ∈ rest, (small ∘ capitalized) other = id other :=
        fun other hother => small_capitalized (hrest other hother)
      rw [splitBy_camelOf h happart, List.map_cons, List.map_map,
        small_eq_self hword.isUpper_eq_false, List.map_congr_left hrestored, List.map_id]

/-- Words look alike in the camel style exactly if they agree once neighbouring numbers are
joined. -/
theorem camelOf_eq_iff {words other : List (List Char)} (hwords : ∀ word ∈ words, Uniform word)
    (hother : ∀ word ∈ other, Uniform word) :
    camelOf words = camelOf other ↔ joinNumbers words = joinNumbers other := by
  rw [← camelOf_joinNumbers hwords, ← camelOf_joinNumbers hother]
  constructor
  · intro h
    rw [← map_small_splitBy_camelOf (uniform_joinNumbers hwords) (isChain_apart_joinNumbers words),
      h, map_small_splitBy_camelOf (uniform_joinNumbers hother) (isChain_apart_joinNumbers other)]
  · exact congrArg camelOf

end Naming
end ClientForge
