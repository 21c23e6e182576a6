import ClientForge.Proofs.Check.Brackets
import ClientForge.Proofs.Check.Items
/-!
# Nesting

What the bracket check decides, said without the check.  A text splits into items, and the brackets
among its single characters must be properly nested (`Nested`).

The check keeps a stack, and along a sequence of brackets the stack is that of `turn?`.  A sequence
is nested exactly if it leads from the empty stack back to it (`nested_iff_turn?`), and the
beginning of a nested one exactly if it leads anywhere (`nestable_iff_turn?`).  The check runs over
items as over their brackets (`walk_textOf`) and stops at the first one that does not fit
(`walk_textOf_eq_error`).  So it accepts exactly the nested texts (`check_decides_nesting`).
-/

namespace ClientForge
namespace Check
namespace Brackets

/-! ## Brackets -/

/-- The brackets, each with the one that closes it. -/
def pairs : List (Char × Char) := [('\x7b', '\x7d'), ('(', ')'), ('[', ']')]

/-- Whether a character is a bracket. -/
def isBracket (c : Char) : Bool :=
  pairs.any fun pair => c == pair.1 || c == pair.2

/-- The bracket that an item is, if it is one. -/
def Item.brackets : Item → List Char
  | .single c => if isBracket c then [c] else []
  | _ => []

/-- The brackets among the items. -/
def bracketsOf (items : List Item) : List Char :=
  items.flatMap Item.brackets

/-- A properly nested sequence of brackets. -/
inductive Nested : List Char → Prop
  | nil : Nested []
  | bracket {opening closing : Char} {inside rest : List Char}
      (pair : (opening, closing) ∈ pairs) (inner : Nested inside) (tail : Nested rest) :
      Nested (opening :: inside ++ closing :: rest)

/-- The beginning of a properly nested sequence. -/
def Nestable (word : List Char) : Prop :=
  ∃ rest, Nested (word ++ rest)

/-- The brackets of the text begin a nested sequence up to an offset, and no longer do so with the
bracket that stands there. -/
structure StopsAt (text : List Char) (c : Char) (offset : Nat) : Prop where
  broken : ∃ items, Begins text (items ++ [.single c]) ∧ (textOf items).length = offset ∧
    ¬ Nestable (bracketsOf (items ++ [.single c]))
  before : ∀ items, Begins text items → (textOf items).length ≤ offset →
    Nestable (bracketsOf items)

@[simp] theorem bracketsOf_cons (item : Item) (items : List Item) :
    bracketsOf (item :: items) = item.brackets ++ bracketsOf items := rfl

@[simp] theorem bracketsOf_append (items more : List Item) :
    bracketsOf (items ++ more) = bracketsOf items ++ bracketsOf more :=
  List.flatMap_append

/-! ## Stacks -/

section Pair

variable {opening closing : Char}

/-- What the check makes of an opening bracket. -/
theorem isOpening_of_pair (h : (opening, closing) ∈ pairs) :
    isQuote opening = false ∧ opening ≠ '/' ∧ isOpening opening = true := by
  simp only [pairs, List.mem_cons, Prod.mk.injEq, List.not_mem_nil, or_false] at h
  rcases h with ⟨rfl, -⟩ | ⟨rfl, -⟩ | ⟨rfl, -⟩
  · decide
  · decide
  · decide

/-- What the check makes of a closing bracket. -/
theorem partner?_of_pair (h : (opening, closing) ∈ pairs) :
    isQuote closing = false ∧ closing ≠ '/' ∧ isOpening closing = false ∧
      partner? closing = some opening := by
  simp only [pairs, List.mem_cons, Prod.mk.injEq, List.not_mem_nil, or_false] at h
  rcases h with ⟨rfl, rfl⟩ | ⟨rfl, rfl⟩ | ⟨rfl, rfl⟩
  · decide
  · decide
  · decide

theorem turnChar?_opening (h : (opening, closing) ∈ pairs) (s : List Char) :
    turnChar? s opening = some (opening :: s) := by
  obtain ⟨hquote, hslash, hopening⟩ := isOpening_of_pair h
  simp [turnChar?, hquote, hslash, hopening]

theorem turnChar?_closing (h : (opening, closing) ∈ pairs) (s : List Char) :
    turnChar? s closing = if s.head? = some opening then some s.tail else none := by
  obtain ⟨hquote, hslash, hopening, hpartner⟩ := partner?_of_pair h
  cases s with
  | nil => simp [turnChar?, hquote, hslash, hopening, hpartner]
  | cons innermost outer => simp [turnChar?, hquote, hslash, hopening, hpartner]

end Pair

/-- A bracket opens or closes. -/
theorem exists_pair_of_isBracket {c : Char} (h : isBracket c = true) :
    (∃ closing, (c, closing) ∈ pairs) ∨ ∃ opening, (opening, c) ∈ pairs := by
  obtain ⟨⟨opening, closing⟩, hpair, hc⟩ := List.any_eq_true.mp h
  rw [Bool.or_eq_true, beq_iff_eq, beq_iff_eq] at hc
  rcases hc with rfl | rfl
  · exact Or.inl ⟨closing, hpair⟩
  · exact Or.inr ⟨opening, hpair⟩

theorem turn?_append (s u v : List Char) :
    turn? s (u ++ v) = (turn? s u).bind fun t => turn? t v := by
  induction u generalizing s with
  | nil => rfl
  | cons c u ih =>
      rw [List.cons_append, turn?, turn?, Option.bind_assoc]
      exact congrArg _ (funext ih)

theorem turn?_singleton (s : List Char) (c : Char) : turn? s [c] = turnChar? s c := by
  simp [turn?]

/-- A nested sequence leaves the stack as it found it. -/
theorem turn?_of_nested {word : List Char} (h : Nested word) (s : List Char) :
    turn? s word = some s := by
  induction h generalizing s with
  | nil => rfl
  | @bracket opening closing inside rest pair _ _ ihinner ihtail =>
      rw [List.cons_append, turn?, turnChar?_opening pair, Option.bind_some, turn?_append, ihinner,
        Option.bind_some, turn?, turnChar?_closing pair, List.head?_cons, if_pos rfl,
        Option.bind_some, List.tail_cons, ihtail]

/-- A sequence that closes the brackets of a stack, the innermost first, with nested sequences
before each and behind the last. -/
def Closes : List Char → List Char → Prop
  | [], word => Nested word
  | opening :: s, word => ∃ inside closing rest, (opening, closing) ∈ pairs ∧ Nested inside ∧
      word = inside ++ closing :: rest ∧ Closes s rest

/-- One more nested pair in front changes nothing. -/
theorem Closes.bracket {s : List Char} {opening closing : Char} {inside rest : List Char}
    (pair : (opening, closing) ∈ pairs) (inner : Nested inside) (h : Closes s rest) :
    Closes s (opening :: inside ++ closing :: rest) := by
  cases s with
  | nil => exact Nested.bracket pair inner h
  | cons outer s =>
      obtain ⟨middle, outerClosing, tail, houter, hmiddle, rfl, htail⟩ := h
      exact ⟨opening :: inside ++ closing :: middle, outerClosing, tail, houter,
        Nested.bracket pair inner hmiddle, by simp, htail⟩

theorem closes_of_turn? {s word : List Char} (hword : ∀ c ∈ word, isBracket c = true)
    (h : turn? s word = some []) : Closes s word := by
  induction word generalizing s with
  | nil =>
      cases h
      exact Nested.nil
  | cons c word ih =>
      obtain ⟨hc, hword⟩ := List.forall_mem_cons.mp hword
      obtain ⟨t, hchar, hrest⟩ := Option.bind_eq_some_iff.mp h
      -- the rest closes the stack that this bracket leaves
      have hcloses := ih hword hrest
      rcases exists_pair_of_isBracket hc with ⟨closing, hpair⟩ | ⟨opening, hpair⟩
      · rw [turnChar?_opening hpair] at hchar
        cases hchar
        obtain ⟨inside, closing', rest, hpair', hinside, rfl, houter⟩ := hcloses
        exact Closes.bracket hpair' hinside houter
      · rw [turnChar?_closing hpair] at hchar
        split at hchar
        · rename_i hhead
          cases hchar
          rw [← List.cons_head?_tail hhead]
          exact ⟨[], c, word, hpair, Nested.nil, rfl, hcloses⟩
        · cases hchar

theorem nested_iff_turn? {word : List Char} (hword : ∀ c ∈ word, isBracket c = true) :
    Nested word ↔ turn? [] word = some [] :=
  ⟨fun h => turn?_of_nested h [], closes_of_turn? hword⟩

/-- Along brackets the stack holds opening ones only. -/
theorem exists_closing_of_turn? {s t word : List Char}
    (hs : ∀ opening ∈ s, ∃ closing, (opening, closing) ∈ pairs)
    (hword : ∀ c ∈ word, isBracket c = true) (h : turn? s word = some t) :
    ∀ opening ∈ t, ∃ closing, (opening, closing) ∈ pairs := by
  induction word generalizing s with
  | nil =>
      cases h
      exact hs
  | cons c word ih =>
      obtain ⟨hc, hword⟩ := List.forall_mem_cons.mp hword
      obtain ⟨u, hchar, hrest⟩ := Option.bind_eq_some_iff.mp h
      refine ih ?_ hword hrest
      rcases exists_pair_of_isBracket hc with ⟨closing, hpair⟩ | ⟨opening, hpair⟩
      · rw [turnChar?_opening hpair] at hchar
        cases hchar
        exact List.forall_mem_cons.mpr ⟨⟨closing, hpair⟩, hs⟩
      · rw [turnChar?_closing hpair] at hchar
        split at hchar
        · cases hchar
          exact fun other hother => hs other (List.mem_of_mem_tail hother)
        · cases hchar

/-- Whatever is open can be closed. -/
theorem exists_turn?_eq_nil {s : List Char}
    (hs : ∀ opening ∈ s, ∃ closing, (opening, closing) ∈ pairs) :
    ∃ word, (∀ c ∈ word, isBracket c = true) ∧ turn? s word = some [] := by
  induction s with
  | nil => exact ⟨[], by simp, rfl⟩
  | cons opening s ih =>
      obtain ⟨⟨closing, hpair⟩, hs⟩ := List.forall_mem_cons.mp hs
      obtain ⟨word, hword, hturn⟩ := ih hs
      refine ⟨closing :: word, List.forall_mem_cons.mpr ⟨?_, hword⟩, ?_⟩
      · exact List.any_eq_true.mpr ⟨_, hpair, by simp⟩
      · rw [turn?, turnChar?_closing hpair, List.head?_cons, if_pos rfl, Option.bind_some,
          List.tail_cons, hturn]

/-- A sequence of brackets begins a nested one exactly if each closing bracket in it finds its
partner. -/
theorem nestable_iff_turn? {word : List Char} (hword : ∀ c ∈ word, isBracket c = true) :
    Nestable word ↔ ∃ t, turn? [] word = some t := by
  constructor
  · rintro ⟨rest, hnested⟩
    have hturn := turn?_of_nested hnested []
    rw [turn?_append] at hturn
    obtain ⟨t, ht, -⟩ := Option.bind_eq_some_iff.mp hturn
    exact ⟨t, ht⟩
  · rintro ⟨t, ht⟩
    obtain ⟨rest, hrest, hclosed⟩ := exists_turn?_eq_nil
      (exists_closing_of_turn? (s := []) (by simp) hword ht)
    refine ⟨rest, (nested_iff_turn? (List.forall_mem_append.mpr ⟨hword, hrest⟩)).mpr ?_⟩
    rw [turn?_append, ht, Option.bind_some, hclosed]

theorem isBracket_of_mem_bracketsOf {items : List Item} {c : Char} (h : c ∈ bracketsOf items) :
    isBracket c = true := by
  obtain ⟨item, -, hc⟩ := List.mem_flatMap.mp h
  cases item with
  | literal quote body => cases hc
  | comment body => cases hc
  | single d =>
      rw [Item.brackets] at hc
      split at hc
      · rename_i hd
        rw [List.mem_singleton.mp hc]
        exact hd
      · cases hc

/-! ## The check along items -/

theorem mem_quotes_iff {c : Char} : c ∈ quotes ↔ isQuote c = true := by
  simp [quotes, isQuote, or_assoc]

theorem inside_of_body {quote : Char} {body : List Char} (h : Body quote body) :
    Inside quote body := by
  induction h with
  | nil => exact inside_nil quote
  | pair c _ ih => exact (inside_escape quote c).append ih
  | plain backslash other _ ih => exact (inside_char backslash other).append ih

/-- A comment that is not ended by a line feed goes on to the end, where offsets do not matter. -/
theorem walk_comment_to_end {body : List Char} (h : '\n' ∉ body) (offset stop : Nat)
    (opened : List Char) : walk offset opened .comment body = walk stop opened .code [] := by
  induction body generalizing offset with
  | nil => rfl
  | cons c body ih =>
      rw [List.mem_cons, not_or] at h
      have hstep : walk offset opened .comment (c :: body) =
          walk (offset + 1) opened .comment body := by
        rw [walk, if_neg (Ne.symm h.1)]
      exact hstep.trans (ih h.2 (offset + 1))

/-- A single character that is no bracket is passed over. -/
theorem walk_single {c : Char} {rest : List Char} (hfits : (Item.single c).Fits rest)
    (hc : isBracket c = false) (offset : Nat) (opened : List Char) :
    walk offset opened .code (c :: rest) = walk (offset + 1) opened .code rest := by
  have hquote : ¬ isQuote c = true := fun h => hfits.1 (mem_quotes_iff.mpr h)
  have hcomment : ¬ (c = '/' ∧ rest.head? = some '/') := by
    rintro ⟨rfl, hhead⟩
    refine hfits.2 ⟨rest.tail, ?_⟩
    rw [← List.cons_head?_tail hhead]
    rfl
  simp only [isBracket, pairs, List.any_cons, List.any_nil, Bool.or_false, Bool.or_eq_false_iff,
    beq_eq_false_iff_ne, ne_eq] at hc
  obtain ⟨⟨hbrace, hbrace'⟩, ⟨hround, hround'⟩, hsquare, hsquare'⟩ := hc
  have hopening : ¬ isOpening c = true := by simp [isOpening, hbrace, hround, hsquare]
  have hpartner : partner? c = none := by simp [partner?, hbrace', hround', hsquare']
  rw [walk, if_neg hquote, if_neg hcomment, if_neg hopening, hpartner]

/-- The check reads an item and changes its stack as the bracket in it asks for. -/
theorem walk_item {item : Item} {rest opened next : List Char} (hfits : item.Fits rest)
    (hturn : turn? opened item.brackets = some next) (offset : Nat) :
    walk offset opened .code (item.text ++ rest) =
      walk (offset + item.text.length) next .code rest := by
  cases item with
  | literal quote body =>
      cases hturn
      exact turns_literal (mem_quotes_iff.mp hfits.1) (ne_backslash_of_mem_quotes hfits.1)
        (inside_of_body hfits.2) [] offset opened rest
  | comment body =>
      cases hturn
      rcases hfits with ⟨line, rfl, hline⟩ | ⟨hbody, rfl⟩
      · exact turns_comment hline [] offset opened rest
      · have hslash : '\n' ∉ '/' :: body := by
          rw [List.mem_cons, not_or]
          exact ⟨by decide, hbody⟩
        have hquote : ¬ isQuote '/' = true := by decide
        have hstep : ∀ tail, tail.head? = some '/' → walk offset opened .code ('/' :: tail) =
            walk (offset + 1) opened .comment tail := by
          intro tail htail
          rw [walk, if_neg hquote, if_pos ⟨rfl, htail⟩]
        rw [List.append_nil]
        exact (hstep ('/' :: body) rfl).trans (walk_comment_to_end hslash _ _ opened)
  | single c =>
      rw [Item.brackets] at hturn
      split at hturn
      · obtain ⟨t, hchar, hnil⟩ := Option.bind_eq_some_iff.mp hturn
        cases hnil
        have hwalk := turns_of_turnChar? hchar offset [] rest
        rwa [List.append_nil, List.append_nil] at hwalk
      · rename_i hc
        cases hturn
        exact walk_single hfits (Bool.not_eq_true _ ▸ hc) offset opened

/-- The check reads items and changes its stack as the brackets among them ask for. -/
theorem walk_textOf {items : List Item} {rest opened next : List Char}
    (hfits : Fitting items rest) (hturn : turn? opened (bracketsOf items) = some next)
    (offset : Nat) :
    walk offset opened .code (textOf items ++ rest) =
      walk (offset + (textOf items).length) next .code rest := by
  induction items generalizing opened offset with
  | nil =>
      cases hturn
      rfl
  | cons item items ih =>
      rw [bracketsOf_cons, turn?_append] at hturn
      obtain ⟨middle, hitem, hitems⟩ := Option.bind_eq_some_iff.mp hturn
      rw [textOf_cons, List.append_assoc, walk_item hfits.1 hitem, ih hfits.2 hitems,
        List.length_append, Nat.add_assoc]

/-- A closing bracket that the stack does not fit is reported where it stands. -/
theorem walk_eq_unbalanced {c : Char} {opened : List Char} (hc : isBracket c = true)
    (hturn : turnChar? opened c = none) (offset : Nat) (rest : List Char) :
    walk offset opened .code (c :: rest) = .error (.unbalanced c offset) := by
  rcases exists_pair_of_isBracket hc with ⟨closing, hpair⟩ | ⟨opening, hpair⟩
  · rw [turnChar?_opening hpair] at hturn
    cases hturn
  · rw [turnChar?_closing hpair] at hturn
    split at hturn
    · cases hturn
    · rename_i hhead
      obtain ⟨hquote, hslash, hopening, hpartner⟩ := partner?_of_pair hpair
      have hcomment : ¬ (c = '/' ∧ rest.head? = some '/') := fun h => hslash h.1
      rw [walk, if_neg (by simp [hquote]), if_neg hcomment, if_neg (by simp [hopening]), hpartner]
      cases opened with
      | nil => rfl
      | cons innermost outer => exact if_neg fun heq => hhead (congrArg some heq)

/-- Where the brackets of items do not fit a stack, there is a first one that does not. -/
theorem exists_front_of_turn?_eq_none {items : List Item} {opened : List Char}
    (h : turn? opened (bracketsOf items) = none) :
    ∃ front c back next, items = front ++ .single c :: back ∧ isBracket c = true ∧
      turn? opened (bracketsOf front) = some next ∧ turnChar? next c = none := by
  induction items generalizing opened with
  | nil => cases h
  | cons item items ih =>
      rw [bracketsOf_cons, turn?_append] at h
      cases hitem : turn? opened item.brackets with
      | some middle =>
          rw [hitem, Option.bind_some] at h
          obtain ⟨front, c, back, next, rfl, hc, hfront, hturn⟩ := ih h
          refine ⟨item :: front, c, back, next, rfl, hc, ?_, hturn⟩
          rw [bracketsOf_cons, turn?_append, hitem, Option.bind_some, hfront]
      | none =>
          cases item with
          | literal quote body => cases hitem
          | comment body => cases hitem
          | single c =>
              rw [Item.brackets] at hitem
              split at hitem
              · rename_i hc
                refine ⟨[], c, items, opened, rfl, hc, rfl, ?_⟩
                rwa [turn?_singleton] at hitem
              · cases hitem

/-- The check stops at the first bracket that does not fit. -/
theorem walk_textOf_eq_error {items : List Item} {rest opened : List Char}
    (hfits : Fitting items rest) (hturn : turn? opened (bracketsOf items) = none) (offset : Nat) :
    ∃ front c back next, items = front ++ .single c :: back ∧ isBracket c = true ∧
      turn? opened (bracketsOf front) = some next ∧ turnChar? next c = none ∧
      walk offset opened .code (textOf items ++ rest) =
        .error (.unbalanced c (offset + (textOf front).length)) := by
  obtain ⟨front, c, back, next, rfl, hc, hfront, hchar⟩ := exists_front_of_turn?_eq_none hturn
  refine ⟨front, c, back, next, rfl, hc, hfront, hchar, ?_⟩
  rw [textOf_append, List.append_assoc, walk_textOf (fitting_append_iff.mp hfits).1 hfront]
  exact walk_eq_unbalanced hc hchar _ _

/-! ## Literals that do not end -/

/-- The check does not come out of a literal that does not end. -/
theorem walk_quoted_eq_error {quote : Char} (start : Nat) : (tail : List Char) →
    (∀ body rest, Body quote body → tail ≠ body ++ quote :: rest) → ∀ offset opened,
      walk offset opened (.quoted quote start) tail = .error (.unterminated start)
  | [], _, _, _ => rfl
  | c :: tail, h, offset, opened => by
      -- a backslash takes two characters at once, so the recursion is not along the list
      by_cases hbackslash : c = '\\'
      · rw [walk, if_pos hbackslash]
        subst hbackslash
        cases tail with
        | nil => rfl
        | cons d tail =>
            rw [walk]
            refine walk_quoted_eq_error start tail (fun body rest hbody heq => ?_) _ _
            exact h ('\\' :: d :: body) rest (Body.pair d hbody) (by rw [heq]; rfl)
      · have hquote : c ≠ quote := fun heq => h [] tail Body.nil (by rw [heq]; rfl)
        rw [walk, if_neg hbackslash, if_neg hquote]
        refine walk_quoted_eq_error start tail (fun body rest hbody heq => ?_) _ _
        exact h (c :: body) rest (Body.plain hbackslash hquote hbody) (by rw [heq]; rfl)

theorem walk_of_unterminated {text : List Char} (h : Unterminated text) (offset : Nat)
    (opened : List Char) :
    walk offset opened .code text = .error (.unterminated offset) := by
  obtain ⟨quote, tail, rfl, hquote, hopen⟩ := h
  rw [walk, if_pos (mem_quotes_iff.mp hquote), walk_quoted_eq_error offset tail hopen]

/-! ## What the check decides -/

theorem Nestable.of_append {word more : List Char} (h : Nestable (word ++ more)) :
    Nestable word := by
  obtain ⟨rest, hnested⟩ := h
  exact ⟨more ++ rest, by rwa [← List.append_assoc]⟩

theorem bracketsOf_concat_single {items : List Item} {c : Char} (hc : isBracket c = true) :
    bracketsOf (items ++ [.single c]) = bracketsOf items ++ [c] := by
  rw [bracketsOf_append]
  simp [bracketsOf, Item.brackets, hc]

theorem walk_eq_ok_iff {text : List Char} :
    walk 0 [] .code text = .ok () ↔ ∃ items, Splits text items ∧ Nested (bracketsOf items) := by
  constructor
  · intro h
    obtain ⟨items, rest, rfl, hfits, hrest⟩ := exists_items text
    cases hturn : turn? [] (bracketsOf items) with
    | none =>
        obtain ⟨_, _, _, _, -, -, -, -, herror⟩ := walk_textOf_eq_error hfits hturn 0
        rw [herror] at h
        cases h
    | some next =>
        rw [walk_textOf hfits hturn] at h
        rcases hrest with rfl | hopen
        · cases next with
          | nil =>
              refine ⟨items, ⟨List.append_nil _, hfits⟩, ?_⟩
              exact (nested_iff_turn? fun c => isBracket_of_mem_bracketsOf).mpr hturn
          | cons innermost outer => cases h
        · rw [walk_of_unterminated hopen] at h
          cases h
  · rintro ⟨items, ⟨rfl, hfits⟩, hnested⟩
    have hwalk := walk_textOf hfits (turn?_of_nested hnested []) 0
    rw [List.append_nil] at hwalk
    rw [hwalk]
    rfl

/-- A bracket that does not fit the stack takes the brackets before it out of every nested
sequence. -/
theorem nestable_concat_single_iff {items : List Item} {c : Char} {next : List Char}
    (hc : isBracket c = true) (hturn : turn? [] (bracketsOf items) = some next) :
    Nestable (bracketsOf (items ++ [.single c])) ↔ ∃ t, turnChar? next c = some t := by
  rw [nestable_iff_turn? fun c => isBracket_of_mem_bracketsOf, bracketsOf_concat_single hc,
    turn?_append, hturn, Option.bind_some, turn?_singleton]

theorem stopsAt_of_walk {text : List Char} {c : Char} {offset : Nat}
    (h : walk 0 [] .code text = .error (.unbalanced c offset)) : StopsAt text c offset := by
  obtain ⟨items, rest, rfl, hfits, hrest⟩ := exists_items text
  cases hturn : turn? [] (bracketsOf items) with
  | some next =>
      rw [walk_textOf hfits hturn] at h
      rcases hrest with rfl | hopen
      · cases next with
        | nil => cases h
        | cons innermost outer => cases h
      · rw [walk_of_unterminated hopen] at h
        cases h
  | none =>
      obtain ⟨front, d, back, next, rfl, hd, hfront, hchar, herror⟩ :=
        walk_textOf_eq_error hfits hturn 0
      rw [herror, Nat.zero_add] at h
      cases h
      obtain ⟨hfits, hback⟩ := fitting_append_iff.mp hfits
      have hbegins : Begins (textOf (front ++ .single c :: back) ++ rest) front :=
        ⟨_, by rw [textOf_append, List.append_assoc], hfits⟩
      refine ⟨⟨front, ⟨textOf back ++ rest, by simp [Item.text], ?_⟩, rfl, ?_⟩, ?_⟩
      · exact fitting_append_iff.mpr ⟨by simpa using hfits, hback.1, trivial⟩
      · rw [nestable_concat_single_iff hd hfront, hchar]
        rintro ⟨t, ht⟩
        cases ht
      · intro items hitems hlength
        obtain ⟨more, rfl⟩ := prefix_of_begins hitems hbegins hlength
        have hnestable : Nestable (bracketsOf (items ++ more)) :=
          (nestable_iff_turn? fun c => isBracket_of_mem_bracketsOf).mpr ⟨next, hfront⟩
        rw [bracketsOf_append] at hnestable
        exact hnestable.of_append

theorem walk_of_stopsAt {text : List Char} {c : Char} {offset : Nat} (h : StopsAt text c offset) :
    walk 0 [] .code text = .error (.unbalanced c offset) := by
  obtain ⟨items, ⟨rest, rfl, hfits⟩, rfl, hbroken⟩ := h.broken
  obtain ⟨hitems, -⟩ := fitting_append_iff.mp hfits
  have hnestable : Nestable (bracketsOf items) :=
    h.before items ⟨_, by rw [textOf_append, List.append_assoc], hitems⟩ (Nat.le_refl _)
  obtain ⟨next, hnext⟩ := (nestable_iff_turn? fun c => isBracket_of_mem_bracketsOf).mp hnestable
  -- a character that is no bracket would leave the sequence as it is
  have hc : isBracket c = true := by
    by_contra hc
    refine hbroken ?_
    rw [bracketsOf_append]
    simpa [bracketsOf, Item.brackets, hc] using hnestable
  have hchar : turnChar? next c = none := by
    rw [nestable_concat_single_iff hc hnext] at hbroken
    exact Option.eq_none_iff_forall_ne_some.mpr fun t ht => hbroken ⟨t, ht⟩
  rw [textOf_append, List.append_assoc, walk_textOf hitems hnext, Nat.zero_add]
  exact walk_eq_unbalanced hc hchar _ _

/-- The check accepts exactly the texts that declare a class and split into items with properly
nested brackets.  A text splits in one way only.  A closing bracket is reported exactly where the
brackets of a text stop being the beginning of a nested sequence. -/
theorem check_decides_nesting (content : String) :
    (check content = .ok () ↔
      "class ".toList <:+: content.toList ∧
        ∃ items, Splits content.toList items ∧ Nested (bracketsOf items)) ∧
    (∀ items items', Splits content.toList items → Splits content.toList items' →
      items = items') ∧
    ∀ c offset, check content = .error (.unbalanced c offset) ↔
      "class ".toList <:+: content.toList ∧ StopsAt content.toList c offset := by
  have hchecked : ∀ {outcome : Except Fault Unit}, outcome ≠ .error .noClass →
      (check content = outcome ↔ "class ".toList <:+: content.toList ∧
        walk 0 [] .code content.toList = outcome) := by
    intro outcome houtcome
    rw [check, ← contains_iff_isInfix]
    split
    · rename_i hclass
      rw [and_iff_right hclass]
    · rename_i hclass
      exact iff_of_false (fun h => houtcome h.symm) fun h => hclass h.1
  refine ⟨?_, fun items items' => splits_unique, fun c offset => ?_⟩
  · rw [hchecked (by simp), walk_eq_ok_iff]
  · rw [hchecked (by simp)]
    exact and_congr_right fun _ => ⟨stopsAt_of_walk, walk_of_stopsAt⟩

end Brackets
end Check
end ClientForge
