import ClientForge.Proofs.Naming.Words
/-!
# Splitting a name

The words of a name are all its letters and digits, in order (`flatten_wordsOf`), and a separator
parts the words before it from those after it (`wordsOf_append_cons`).

Other divisions have these properties too, one word for each letter or digit for instance.
`Divides` says which one it is: read from the left, each word is the longest that the characters
begin with, where no word ends between a capital and a small letter.  There is exactly one such
division, and it is made of the words of the name (`divides_iff_wordsOf_eq`).
-/

namespace ClientForge
namespace Naming

/-! ## Letters and digits of the words -/

theorem flatten_wordsOf (cs : List Char) : (wordsOf cs).flatten = cs.filter Text.isWordChar := by
  induction cs with
  | nil => rfl
  | cons c cs ih =>
      cases hc : Text.isWordChar c with
      | false =>
          rw [wordsOf_cons_of_not_isWordChar hc, List.filter_cons_of_neg (Bool.eq_false_iff.mp hc)]
          exact ih
      | true =>
          rw [List.filter_cons_of_pos hc, ← ih]
          rcases wordsOf_cons_of_isWordChar cs hc with ⟨word, rest, hwords, -, hcons⟩ | hcons
          · rw [hcons, hwords]
            rfl
          · rw [hcons]
            rfl

/-! ## Separators -/

theorem exists_wordsOf_eq_cons {cs : List Char} (hcs : cs.head?.any Text.isWordChar = true) :
    ∃ word rest, wordsOf cs = word :: rest := by
  apply List.exists_cons_of_ne_nil
  intro hnil
  obtain ⟨c, hhead, hc⟩ := (Option.any_eq_true _ _).mp hcs
  rw [wordsOf_eq_nil_iff.mp hnil c (List.mem_of_mem_head? hhead)] at hc
  cases hc

/-- No word reaches over a separator. -/
theorem wordsOf_append_cons {s : Char} (hs : Text.isWordChar s = false) (front back : List Char) :
    wordsOf (front ++ s :: back) = wordsOf front ++ wordsOf back := by
  induction front with
  | nil => exact wordsOf_cons_of_not_isWordChar hs
  | cons c front ih =>
      rw [List.cons_append]
      cases hc : Text.isWordChar c with
      | false => rw [wordsOf_cons_of_not_isWordChar hc, wordsOf_cons_of_not_isWordChar hc, ih]
      | true =>
          -- what follows `c` begins with a letter or digit with the separator as without it
          have hhead : (front ++ s :: back).head?.any Text.isWordChar =
              front.head?.any Text.isWordChar := by
            cases front with
            | nil => exact hs
            | cons d front => rfl
          cases hfront : front.head?.any Text.isWordChar with
          | false =>
              rw [wordsOf_cons_of_head? hc (hhead.trans hfront), wordsOf_cons_of_head? hc hfront, ih]
              rfl
          | true =>
              obtain ⟨word, rest, hwords⟩ := exists_wordsOf_eq_cons hfront
              have hall : wordsOf (front ++ s :: back) = word :: (rest ++ wordsOf back) := by
                rw [ih, hwords]
                rfl
              rw [wordsOf_cons_of_eq_cons hc (hhead.trans hfront) hall,
                wordsOf_cons_of_eq_cons hc hfront hwords]
              split
              · rfl
              · rfl

/-! ## Words at the front -/

/-- The word may be the first one of `word ++ rest`: it has one of the forms, and it does not end
between a capital and a small letter. -/
structure Begins (word rest : List Char) : Prop where
  form : WordForm word
  closed : word.getLast?.any Text.isUpper = true → rest.head?.any Text.isLower = false

/-- The word is the longest that may be the first one of `word ++ rest`. -/
structure BeginsLongest (word rest : List Char) : Prop extends Begins word rest where
  longest : ∀ other tail, Begins other tail → other ++ tail = word ++ rest →
    other.length ≤ word.length

/-- The words divide the characters, each the longest where it begins.  Between words, all that is
no letter or digit is left out. -/
inductive Divides : List Char → List (List Char) → Prop
  | nil : Divides [] []
  | separator {c : Char} {cs : List Char} {words : List (List Char)}
      (plain : Text.isWordChar c = false) (next : Divides cs words) : Divides (c :: cs) words
  | word {word rest : List Char} {words : List (List Char)} (front : BeginsLongest word rest)
      (next : Divides rest words) : Divides (word ++ rest) (word :: words)

theorem Begins.tail {c d : Char} {cs rest : List Char} (h : Begins (c :: d :: cs) rest) :
    Begins (d :: cs) rest where
  form := h.form.tail (List.cons_ne_nil _ _)
  closed hlast := h.closed (by rwa [List.getLast?_cons_cons])

/-- If a longer word may begin with the character, then it joins the word that follows. -/
theorem joins_of_begins {c d : Char} {cs tail word rest : List Char}
    (hlonger : Begins (c :: d :: cs) tail) (hword : WordForm (d :: word))
    (heq : cs ++ tail = word ++ rest) : joins c (d :: word) = true := by
  have hcases := hlonger.form.cons_cases
  simp only [List.forall_mem_cons] at hcases
  rcases hcases with ⟨hc, hd, -⟩ | ⟨hc, hd, -⟩ | ⟨hc, hd, -⟩ | ⟨hc, hd, hcs⟩
  · simp [joins, hc, hd]
  · simp [joins, hc, hd]
  · simp [joins, hc, hd]
  · -- after `d` the longer word has capitals or ends, and it does not end before a small letter
    have hnext : (cs ++ tail).head?.any Text.isLower = false := by
      cases cs with
      | nil => exact hlonger.closed hd
      | cons e cs =>
          refine Bool.eq_false_iff.mpr fun hlower => ?_
          have hupper := hcs e List.mem_cons_self
          rw [Text.isUpper_eq_false_of_isLower hlower] at hupper
          cases hupper
    have huppers : ∀ e ∈ d :: word, Text.isUpper e = true := by
      refine hword.isUpper_of_head hd ?_
      cases word with
      | nil => rfl
      | cons e word =>
          rw [heq] at hnext
          exact hnext
    simp [joins, hc, hd, List.all_eq_true.mpr (List.forall_mem_cons.mp huppers).2]

section Longest

variable {c : Char} {cs word rest : List Char}

/-- A character is a word of its own if no longer word begins with it. -/
theorem beginsLongest_singleton (hc : Text.isWordChar c = true)
    (hclosed : Text.isUpper c = true → cs.head?.any Text.isLower = false)
    (hshort : ∀ d more tail, Begins (c :: d :: more) tail → d :: more ++ tail ≠ cs) :
    BeginsLongest [c] cs where
  form := wordForm_singleton hc
  closed := hclosed
  longest := by
    intro other tail hother heq
    cases other with
    | nil => exact Nat.zero_le _
    | cons a other =>
        obtain ⟨rfl, htail⟩ := List.cons.inj heq
        cases other with
        | nil => exact Nat.le_refl _
        | cons d more => exact absurd htail (hshort d more tail hother)

/-- A letter or digit before a separator or at the end is a word of its own. -/
theorem beginsLongest_of_head? (hc : Text.isWordChar c = true)
    (hcs : cs.head?.any Text.isWordChar = false) : BeginsLongest [c] cs := by
  refine beginsLongest_singleton hc (fun _ => ?_) ?_
  · cases cs with
    | nil => rfl
    | cons d cs =>
        refine Bool.eq_false_iff.mpr fun hlower => Bool.eq_false_iff.mp hcs ?_
        exact Text.isWordChar_iff.mpr (Or.inr (Or.inl hlower))
  · rintro d more tail hlonger rfl
    refine Bool.eq_false_iff.mp hcs ?_
    exact hlonger.form.isWordChar d (List.mem_cons_of_mem _ List.mem_cons_self)

/-- A character that does not join the word after it is a word of its own. -/
theorem BeginsLongest.singleton (h : BeginsLongest word rest) (hc : Text.isWordChar c = true)
    (hjoins : joins c word = false) : BeginsLongest [c] (word ++ rest) := by
  obtain ⟨d, word, rfl⟩ := List.exists_cons_of_ne_nil h.form.ne_nil
  refine beginsLongest_singleton hc (fun hupper => ?_) ?_
  · refine Bool.eq_false_iff.mpr fun hlower => Bool.eq_false_iff.mp hjoins ?_
    have hd : Text.isLower d = true := hlower
    simp [joins, hupper, hd]
  · intro e more tail hlonger heq
    obtain ⟨rfl, hmore⟩ := List.cons.inj heq
    exact Bool.eq_false_iff.mp hjoins (joins_of_begins hlonger h.form hmore)

/-- A character that joins the word after it makes the longest word with it. -/
theorem BeginsLongest.cons (h : BeginsLongest word rest) (hjoins : joins c word = true) :
    BeginsLongest (c :: word) rest where
  form := h.form.cons hjoins
  closed := by
    obtain ⟨d, word, rfl⟩ := List.exists_cons_of_ne_nil h.form.ne_nil
    rw [List.getLast?_cons_cons]
    exact h.closed
  longest := by
    -- a word that is longer with `c` is longer without it
    intro other tail hother heq
    cases other with
    | nil => exact Nat.zero_le _
    | cons a other =>
        obtain ⟨rfl, htail⟩ := List.cons.inj heq
        apply Nat.succ_le_succ
        cases other with
        | nil => exact Nat.zero_le _
        | cons d more => exact h.longest (d :: more) tail hother.tail htail

/-- Two longest words at the front of the same characters are one. -/
theorem BeginsLongest.unique {word' rest' : List Char} (h : BeginsLongest word rest)
    (h' : BeginsLongest word' rest') (heq : word ++ rest = word' ++ rest') :
    word = word' ∧ rest = rest' := by
  apply List.append_inj heq
  apply Nat.le_antisymm
  · exact h'.longest word rest h.toBegins heq
  · exact h.longest word' rest' h'.toBegins heq.symm

end Longest

/-! ## The division -/

theorem Divides.eq_nil {words : List (List Char)} (h : Divides [] words) : words = [] := by
  generalize hcs : [] = cs at h
  cases h with
  | nil => rfl
  | separator => cases hcs
  | word front => exact absurd (List.append_eq_nil_iff.mp hcs.symm).1 front.form.ne_nil

/-- A division goes on after a separator. -/
theorem Divides.of_separator {c : Char} {cs : List Char} {words : List (List Char)}
    (h : Divides (c :: cs) words) (hc : Text.isWordChar c = false) : Divides cs words := by
  generalize hcs : c :: cs = all at h
  cases h with
  | nil => cases hcs
  | separator plain next =>
      obtain ⟨-, rfl⟩ := List.cons.inj hcs
      exact next
  | @word word rest _ front =>
      obtain ⟨d, word, rfl⟩ := List.exists_cons_of_ne_nil front.form.ne_nil
      obtain ⟨rfl, -⟩ := List.cons.inj hcs
      rw [front.form.isWordChar c List.mem_cons_self] at hc
      cases hc

/-- A division has a word where a letter or digit comes first. -/
theorem Divides.exists_word {cs : List Char} {words : List (List Char)} (h : Divides cs words)
    (hcs : cs.head?.any Text.isWordChar = true) :
    ∃ word rest more, cs = word ++ rest ∧ words = word :: more ∧ BeginsLongest word rest ∧
      Divides rest more := by
  cases h with
  | nil => cases hcs
  | separator plain =>
      rw [List.head?_cons, Option.any_some, plain] at hcs
      cases hcs
  | word front next => exact ⟨_, _, _, rfl, rfl, front, next⟩

theorem Divides.unique {cs : List Char} {words words' : List (List Char)} (h : Divides cs words)
    (h' : Divides cs words') : words = words' := by
  induction h generalizing words' with
  | nil => exact h'.eq_nil.symm
  | separator plain next ih => exact ih (h'.of_separator plain)
  | @word word rest words front next ih =>
      have hhead : (word ++ rest).head?.any Text.isWordChar = true := by
        obtain ⟨c, word, rfl⟩ := List.exists_cons_of_ne_nil front.form.ne_nil
        exact front.form.isWordChar c List.mem_cons_self
      obtain ⟨word', rest', words', heq, rfl, front', next'⟩ := h'.exists_word hhead
      obtain ⟨rfl, rfl⟩ := front.unique front' heq
      rw [ih next']

/-- The words of the characters divide them. -/
theorem divides_wordsOf (cs : List Char) : Divides cs (wordsOf cs) := by
  induction cs with
  | nil => exact Divides.nil
  | cons c cs ih =>
      cases hc : Text.isWordChar c with
      | false =>
          rw [wordsOf_cons_of_not_isWordChar hc]
          exact Divides.separator hc ih
      | true =>
          cases hcs : cs.head?.any Text.isWordChar with
          | false =>
              rw [wordsOf_cons_of_head? hc hcs]
              exact Divides.word (beginsLongest_of_head? hc hcs) ih
          | true =>
              -- the word that `c` may join is the longest one behind it
              obtain ⟨word, rest, more, rfl, hwords, front, next⟩ := ih.exists_word hcs
              rw [wordsOf_cons_of_eq_cons hc hcs hwords]
              split
              · rename_i hjoins
                exact Divides.word (front.cons hjoins) next
              · rename_i hjoins
                exact Divides.word (front.singleton hc (Bool.eq_false_iff.mpr hjoins))
                  (Divides.word front next)

theorem divides_iff_wordsOf_eq {cs : List Char} {words : List (List Char)} :
    Divides cs words ↔ wordsOf cs = words :=
  ⟨(divides_wordsOf cs).unique, fun h => h ▸ divides_wordsOf cs⟩

/-! ## Words as texts -/

theorem join_splitWords (name : String) :
    String.join (splitWords name) = String.ofList (name.toList.filter Text.isWordChar) := by
  have hchars : ∀ words : List (List Char),
      (words.map String.ofList).flatMap String.toList = words.flatten := by
    intro words
    simp [List.flatMap_map]
  rw [← String.toList_inj, String.toList_join, String.toList_ofList, ← flatten_wordsOf]
  exact hchars (wordsOf name.toList)

theorem splitWords_append_singleton {s : Char} (hs : Text.isWordChar s = false) (a b : String) :
    splitWords (a ++ String.singleton s ++ b) = splitWords a ++ splitWords b := by
  have hchars : (a ++ String.singleton s ++ b).toList = a.toList ++ s :: b.toList := by simp
  rw [splitWords, hchars, wordsOf_append_cons hs, List.map_append]
  rfl

/-- Splitting a name keeps its letters and digits, in order, and nothing else.  The words have one
of the forms, and a separator parts the words before it from those after it.  Of all divisions it is
the one with the longest words from the left. -/
theorem join_splitWords_and_divides_iff (name : String) :
    String.join (splitWords name) = String.ofList (name.toList.filter Text.isWordChar) ∧
    (∀ word ∈ splitWords name, WordForm word.toList) ∧
    (∀ (s : Char) (a b : String), Text.isWordChar s = false →
      splitWords (a ++ String.singleton s ++ b) = splitWords a ++ splitWords b) ∧
    ∀ words, Divides name.toList words ↔ splitWords name = words.map String.ofList := by
  refine ⟨join_splitWords name, ?_, fun s a b hs => splitWords_append_singleton hs a b, ?_⟩
  · intro word hword
    obtain ⟨chars, hchars, rfl⟩ := List.mem_map.mp hword
    rw [String.toList_ofList]
    exact form_of_mem_wordsOf hchars
  · intro words
    rw [divides_iff_wordsOf_eq, splitWords]
    exact (List.map_inj_right fun _ _ => String.ofList_inj.mp).symm

/-- The last capital of a run goes with the small letters, and a letter outside ASCII separates. -/
theorem join_splitWords_and_divides_iff_acronym :
    String.join (splitWords "XMLHttpéV2") = "XMLHttpV2" ∧ WordForm "Http".toList ∧
    splitWords ("XMLHttp" ++ String.singleton 'é' ++ "V2") =
      splitWords "XMLHttp" ++ splitWords "V2" ∧
    Divides "XMLHttpéV2".toList [['X', 'M', 'L'], ['H', 't', 't', 'p'], ['V'], ['2']] := by
  obtain ⟨hjoin, hforms, hseparator, hdivides⟩ := join_splitWords_and_divides_iff "XMLHttpéV2"
  refine ⟨hjoin.trans (by decide), hforms "Http" (by decide), ?_, ?_⟩
  · exact hseparator 'é' "XMLHttp" "V2" (by decide)
  · exact (hdivides _).mpr (by decide)

end Naming
end ClientForge
