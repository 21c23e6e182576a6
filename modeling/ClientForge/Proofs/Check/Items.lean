import ClientForge.Proofs.Text.Split
/-!
# Items of a script text

A text in JavaScript or TypeScript, as far as brackets matter, is a row of items: quoted literals,
line comments, and single characters.  Whether an item may stand somewhere depends on what follows
it, so `Fitting items rest` speaks of items together with the rest of the text.

The items are settled by the text.  Two rows of items that a text begins with agree as far as the
shorter one goes (`prefix_of_begins`), and a text splits in at most one way (`splits_unique`).  What
cannot be split is a text with a literal that does not end (`exists_items`).
-/

namespace ClientForge
namespace Check
namespace Brackets

/-! ## Items -/

/-- The quotes of literals. -/
def quotes : List Char := ['"', '\'', '\x60']

/-- A stretch of a text: a literal with its inside, a comment without its two slashes, or one
character. -/
inductive Item where
  | literal (quote : Char) (body : List Char)
  | comment (body : List Char)
  | single (c : Char)

/-- The characters of an item. -/
def Item.text : Item → List Char
  | .literal quote body => quote :: body ++ [quote]
  | .comment body => '/' :: '/' :: body
  | .single c => [c]

/-- The characters of items in a row. -/
def textOf (items : List Item) : List Char :=
  items.flatMap Item.text

/-- The inside of a literal: a backslash goes together with any one character, and the quote
itself occurs in such a pair only. -/
inductive Body (quote : Char) : List Char → Prop
  | nil : Body quote []
  | pair (c : Char) {rest : List Char} (tail : Body quote rest) : Body quote ('\\' :: c :: rest)
  | plain {c : Char} {rest : List Char} (backslash : c ≠ '\\') (other : c ≠ quote)
      (tail : Body quote rest) : Body quote (c :: rest)

/-- Whether an item may stand before a rest.  A comment takes the whole line with the line feed that
ends it, if there is one.  A single character begins neither a literal nor a comment. -/
def Item.Fits : Item → List Char → Prop
  | .literal quote body, _ => quote ∈ quotes ∧ Body quote body
  | .comment body, rest =>
      (∃ line, body = line ++ ['\n'] ∧ '\n' ∉ line) ∨ ('\n' ∉ body ∧ rest = [])
  | .single c, rest => c ∉ quotes ∧ ¬ ['/', '/'] <+: c :: rest

/-- Items that may stand in a row before a rest. -/
def Fitting : List Item → List Char → Prop
  | [], _ => True
  | item :: items, rest => item.Fits (textOf items ++ rest) ∧ Fitting items rest

/-- A text that begins with the items. -/
def Begins (text : List Char) (items : List Item) : Prop :=
  ∃ rest, text = textOf items ++ rest ∧ Fitting items rest

/-- A text that is made of the items. -/
def Splits (text : List Char) (items : List Item) : Prop :=
  text = textOf items ∧ Fitting items []

@[simp] theorem textOf_nil : textOf [] = [] := rfl

@[simp] theorem textOf_cons (item : Item) (items : List Item) :
    textOf (item :: items) = item.text ++ textOf items := rfl

@[simp] theorem textOf_append (items more : List Item) :
    textOf (items ++ more) = textOf items ++ textOf more :=
  List.flatMap_append

theorem fitting_append_iff {items more : List Item} {rest : List Char} :
    Fitting (items ++ more) rest ↔ Fitting items (textOf more ++ rest) ∧ Fitting more rest := by
  induction items with
  | nil => simp [Fitting]
  | cons item items ih =>
      rw [List.cons_append, Fitting, Fitting, ih, textOf_append, List.append_assoc, and_assoc]

/-! ## One way to split -/

/-- Where a literal ends is settled by its inside. -/
theorem Body.append_inj {quote : Char} {body body' rest rest' : List Char} (h : Body quote body)
    (h' : Body quote body') (hquote : quote ≠ '\\')
    (heq : body ++ quote :: rest = body' ++ quote :: rest') : body = body' ∧ rest = rest' := by
  induction h generalizing body' with
  | nil =>
      cases h' with
      | nil => exact ⟨rfl, (List.cons.inj heq).2⟩
      | pair c tail => exact absurd (List.cons.inj heq).1 hquote
      | plain backslash other tail => exact absurd (List.cons.inj heq).1.symm other
  | pair c _ ih =>
      cases h' with
      | nil => exact absurd (List.cons.inj heq).1.symm hquote
      | pair c' tail' =>
          simp only [List.cons_append, List.cons.injEq, true_and] at heq
          obtain ⟨rfl, hrest⟩ := ih tail' heq.2
          exact ⟨by rw [heq.1], hrest⟩
      | plain backslash other tail => exact absurd (List.cons.inj heq).1.symm backslash
  | plain backslash other _ ih =>
      cases h' with
      | nil => exact absurd (List.cons.inj heq).1 other
      | pair c tail => exact absurd (List.cons.inj heq).1 backslash
      | plain backslash' other' tail' =>
          simp only [List.cons_append, List.cons.injEq] at heq
          obtain ⟨rfl, hrest⟩ := ih tail' heq.2
          exact ⟨by rw [heq.1], hrest⟩

theorem ne_backslash_of_mem_quotes {quote : Char} (h : quote ∈ quotes) : quote ≠ '\\' := by
  rintro rfl
  revert h
  decide

/-- A line ends at its first line feed. -/
theorem comment_append_inj {body body' rest rest' : List Char}
    (h : (Item.comment body).Fits rest) (h' : (Item.comment body').Fits rest')
    (heq : body ++ rest = body' ++ rest') : body = body' ∧ rest = rest' := by
  rcases h with ⟨line, rfl, hline⟩ | ⟨hbody, rfl⟩
  · rcases h' with ⟨line', rfl, hline'⟩ | ⟨hbody', rfl⟩
    · rw [List.append_assoc, List.append_assoc, List.singleton_append, List.singleton_append] at heq
      have hcut := Text.cut_eq_some_iff.mpr ⟨heq, hline'⟩
      rw [Text.cut_eq_some_iff.mpr ⟨rfl, hline⟩] at hcut
      cases hcut
      exact ⟨rfl, rfl⟩
    · rw [List.append_nil] at heq
      exact absurd (heq ▸ by simp) hbody'
  · rcases h' with ⟨line', rfl, hline'⟩ | ⟨hbody', rfl⟩
    · rw [List.append_nil] at heq
      exact absurd (heq ▸ by simp) hbody
    · rw [List.append_nil, List.append_nil] at heq
      exact ⟨heq, rfl⟩

/-- The first item of a text is settled by the text. -/
theorem Item.Fits.inj {item item' : Item} {rest rest' : List Char} (h : item.Fits rest)
    (h' : item'.Fits rest') (heq : item.text ++ rest = item'.text ++ rest') :
    item = item' ∧ rest = rest' := by
  have hslash : '/' ∉ quotes := by decide
  cases item with
  | literal quote body =>
      cases item' with
      | literal quote' body' =>
          simp only [Item.text, List.cons_append, List.append_assoc, List.cons.injEq,
            List.nil_append] at heq
          obtain ⟨rfl, heq⟩ := heq
          obtain ⟨rfl, rfl⟩ := h.2.append_inj h'.2 (ne_backslash_of_mem_quotes h.1) heq
          exact ⟨rfl, rfl⟩
      | comment body' => exact absurd ((List.cons.inj heq).1 ▸ h.1) hslash
      | single c => exact absurd ((List.cons.inj heq).1 ▸ h.1) h'.1
  | comment body =>
      cases item' with
      | literal quote' body' => exact absurd ((List.cons.inj heq).1 ▸ h'.1) hslash
      | comment body' =>
          obtain ⟨rfl, rfl⟩ := comment_append_inj h h' (List.cons.inj (List.cons.inj heq).2).2
          exact ⟨rfl, rfl⟩
      | single c => exact absurd ⟨body ++ rest, heq⟩ h'.2
  | single c =>
      cases item' with
      | literal quote' body' => exact absurd ((List.cons.inj heq).1 ▸ h'.1) h.1
      | comment body' => exact absurd ⟨body' ++ rest', heq.symm⟩ h.2
      | single c' =>
          obtain ⟨rfl, rfl⟩ := List.cons.inj heq
          exact ⟨rfl, rfl⟩

theorem Item.text_ne_nil (item : Item) : item.text ≠ [] := by
  cases item with
  | literal quote body => exact List.cons_ne_nil _ _
  | comment body => exact List.cons_ne_nil _ _
  | single c => exact List.cons_ne_nil _ _

theorem length_text_pos (item : Item) : 0 < item.text.length :=
  List.length_pos_iff.mpr item.text_ne_nil

/-- Of two lists of items that a text begins with, the shorter one begins the longer one. -/
theorem prefix_of_begins {text : List Char} {items items' : List Item} (h : Begins text items)
    (h' : Begins text items') (hlength : (textOf items).length ≤ (textOf items').length) :
    items <+: items' := by
  obtain ⟨rest, rfl, hfits⟩ := h
  obtain ⟨rest', heq, hfits'⟩ := h'
  induction items generalizing items' with
  | nil => exact List.nil_prefix
  | cons item items ih =>
      cases items' with
      | nil =>
          have hpos := length_text_pos item
          rw [textOf_cons, List.length_append, textOf_nil, List.length_nil] at hlength
          omega
      | cons item' items' =>
          rw [textOf_cons, textOf_cons, List.append_assoc, List.append_assoc] at heq
          obtain ⟨rfl, hrest⟩ := hfits.1.inj hfits'.1 heq
          rw [List.prefix_cons_inj]
          refine ih ?_ hfits.2 hrest hfits'.2
          simpa using hlength

/-- There is at most one way to split a text. -/
theorem splits_unique {text : List Char} {items items' : List Item} (h : Splits text items)
    (h' : Splits text items') : items = items' := by
  have hbegins : Begins text items := ⟨[], by rw [List.append_nil]; exact h.1, h.2⟩
  have hbegins' : Begins text items' := ⟨[], by rw [List.append_nil]; exact h'.1, h'.2⟩
  have hlength : (textOf items).length = (textOf items').length := by rw [← h.1, ← h'.1]
  obtain ⟨more, rfl⟩ := prefix_of_begins hbegins hbegins' (Nat.le_of_eq hlength)
  -- items beyond would have characters
  cases more with
  | nil => rw [List.append_nil]
  | cons item more =>
      have hpos := length_text_pos item
      simp only [textOf_append, textOf_cons, List.length_append] at hlength
      omega

/-! ## What is left of a text -/

/-- A text that begins with a literal that does not end. -/
def Unterminated (text : List Char) : Prop :=
  ∃ quote tail, text = quote :: tail ∧ quote ∈ quotes ∧
    ∀ body rest, Body quote body → tail ≠ body ++ quote :: rest

/-- A text begins with an item, unless it is empty or a literal in it does not end. -/
theorem exists_item_of_cons (c : Char) (cs : List Char) :
    Unterminated (c :: cs) ∨ ∃ item rest, c :: cs = Item.text item ++ rest ∧ item.Fits rest := by
  by_cases hquote : c ∈ quotes
  · by_cases hends : ∃ body rest, Body c body ∧ cs = body ++ c :: rest
    · obtain ⟨body, rest, hbody, rfl⟩ := hends
      exact Or.inr ⟨.literal c body, rest, by simp [Item.text], hquote, hbody⟩
    · exact Or.inl ⟨c, cs, rfl, hquote, fun body rest hbody heq => hends ⟨body, rest, hbody, heq⟩⟩
  · right
    by_cases hcomment : ['/', '/'] <+: c :: cs
    · obtain ⟨body, hbody⟩ := hcomment
      rw [← hbody]
      by_cases hline : '\n' ∈ body
      · obtain ⟨line, rest, rfl, hnot⟩ := List.eq_append_cons_of_mem hline
        exact ⟨.comment (line ++ ['\n']), rest, by simp [Item.text], Or.inl ⟨line, rfl, hnot⟩⟩
      · exact ⟨.comment body, [], by simp [Item.text], Or.inr ⟨hline, rfl⟩⟩
    · exact ⟨.single c, cs, rfl, hquote, hcomment⟩

/-- A text is made of items up to its end or up to a literal that does not end. -/
theorem exists_items (text : List Char) : ∃ items rest, text = textOf items ++ rest ∧
    Fitting items rest ∧ (rest = [] ∨ Unterminated rest) := by
  induction hlength : text.length using Nat.strongRecOn generalizing text with
  | ind n ih =>
      cases text with
      | nil => exact ⟨[], [], rfl, trivial, Or.inl rfl⟩
      | cons c cs =>
          rcases exists_item_of_cons c cs with hopen | ⟨item, rest, heq, hfits⟩
          · exact ⟨[], c :: cs, rfl, trivial, Or.inr hopen⟩
          · have hshorter : rest.length < n := by
              have hpos := length_text_pos item
              rw [← hlength, heq, List.length_append]
              omega
            obtain ⟨items, more, rfl, hitems, hmore⟩ := ih _ hshorter rest rfl
            refine ⟨item :: items, more, ?_, ⟨hfits, hitems⟩, hmore⟩
            rw [heq, textOf_cons, List.append_assoc]

end Brackets
end Check
end ClientForge
