import ClientForge.Proofs.Expression.Grammar
/-!
# Where reading stops

`Breaks` says what is wrong with the first item of a text.  A text is rejected exactly if it is a
text that can be read, followed by one that breaks (`items_eq_error_iff`), and the fault tells where
the second begins.  So everything before the fault can be read, and what stands behind the closing
mark of a bad reference or placeholder does not matter (`parse_error_position`).
-/

namespace ClientForge
namespace Expression

/-! ## Texts that break -/

/-- The first item of a text cannot be read, and why. -/
inductive Breaks : List Char → Cause → Prop
  | dangling : Breaks ['\\'] .danglingEscape
  | openReference {rest : List Char} (mark : '\x7d' ∉ rest) :
      Breaks ('$' :: '\x7b' :: rest) .unterminatedReference
  | reference {body : List Char} {cause : Cause} (rest : List Char) (first : '\x7d' ∉ body)
      (bad : readReference body = .error cause) :
      Breaks ('$' :: '\x7b' :: (body ++ '\x7d' :: rest)) cause
  | openPlaceholder {rest : List Char} (mark : '>' ∉ rest) :
      Breaks ('<' :: rest) .unterminatedPlaceholder
  | placeholder {body : List Char} {cause : Cause} (rest : List Char) (first : '>' ∉ body)
      (bad : readPlaceholder body = .error cause) : Breaks ('<' :: (body ++ '>' :: rest)) cause

/-- The characters that an item other than plain text begins with. -/
def openers : List Char := ['\\', '$', '<']

theorem Breaks.exists_opener {cs : List Char} {cause : Cause} (h : Breaks cs cause) :
    ∃ c rest, cs = c :: rest ∧ c ∈ openers := by
  cases h with
  | dangling => exact ⟨'\\', [], rfl, by decide⟩
  | openReference => exact ⟨'$', _, rfl, by decide⟩
  | reference => exact ⟨'$', _, rfl, by decide⟩
  | openPlaceholder => exact ⟨'<', _, rfl, by decide⟩
  | placeholder => exact ⟨'<', _, rfl, by decide⟩

/-- A text that breaks does not make a reference of a dollar sign before it. -/
theorem Breaks.head?_ne {cs : List Char} {cause : Cause} (h : Breaks cs cause) :
    cs.head? ≠ some '\x7b' := by
  obtain ⟨c, rest, rfl, hc⟩ := h.exists_opener
  intro heq
  rw [Option.some.inj heq] at hc
  exact absurd hc (by decide)

/-- A text that breaks is rejected where it begins. -/
theorem Breaks.items_eq {cs : List Char} {cause : Cause} (h : Breaks cs cause) (position : Nat) :
    items position cs = .error ⟨cause, position⟩ := by
  cases h with
  | dangling => rw [items]
  | openReference mark =>
      rw [items]
      split
      · rfl
      · rename_i hcut
        rw [Text.cut_eq_none_iff.mpr ⟨rfl, mark⟩] at hcut
        cases hcut
  | reference rest first bad =>
      rw [items_reference position rest first, bad]
      rfl
  | openPlaceholder mark =>
      rw [items]
      split
      · rfl
      · rename_i hcut
        rw [Text.cut_eq_none_iff.mpr ⟨rfl, mark⟩] at hcut
        cases hcut
  | placeholder rest first bad =>
      rw [items_placeholder position rest first, bad]
      rfl

/-! ## Rejected texts -/

/-- A text can be read up to where another begins, and that one breaks. -/
structure StopsAt (cs before rest : List Char) (cause : Cause) : Prop where
  eq_append : cs = before ++ rest
  readable : ∃ lexemes list, Splits before lexemes ∧ List.Forall₂ Means lexemes list
  breaks : Breaks rest cause

theorem stopsAt_self {cs : List Char} {cause : Cause} (h : Breaks cs cause) :
    StopsAt cs [] cs cause :=
  ⟨rfl, ⟨[], [], Splits.nil, List.Forall₂.nil⟩, h⟩

theorem StopsAt.items_eq {cs before rest : List Char} {cause : Cause}
    (h : StopsAt cs before rest cause) (position : Nat) :
    items position cs = .error ⟨cause, position + before.length⟩ := by
  obtain ⟨lexemes, list, hsplits, hmeans⟩ := h.readable
  rw [h.eq_append, items_append position hsplits hmeans h.breaks.head?_ne, h.breaks.items_eq]
  rfl

/-- One more lexeme in front of the text before the fault. -/
theorem StopsAt.cons {cs before rest : List Char} {cause : Cause} {lexeme : Lexeme} {item : Item}
    (h : StopsAt cs before rest cause) (spelled : List Char) (hmeans : Means lexeme item)
    (hsplits : ∀ lexemes, Splits before lexemes → Splits (spelled ++ before) (lexeme :: lexemes)) :
    StopsAt (spelled ++ cs) (spelled ++ before) rest cause := by
  obtain ⟨lexemes, list, hbefore, hlist⟩ := h.readable
  refine ⟨?_, ⟨lexeme :: lexemes, item :: list, hsplits lexemes hbefore, .cons hmeans hlist⟩,
    h.breaks⟩
  rw [h.eq_append, List.append_assoc]

/-- A rejected text can be read up to the fault and breaks there. -/
theorem exists_stopsAt_of_items {position : Nat} {cs : List Char} {fault : Fault}
    (h : items position cs = .error fault) :
    ∃ before rest, StopsAt cs before rest fault.cause ∧
      fault.position = position + before.length := by
  fun_induction items position cs with
  | case1 => cases h
  | case2 position =>
      cases h
      exact ⟨[], _, stopsAt_self Breaks.dangling, rfl⟩
  | case3 position c rest ih =>
      obtain ⟨before, tail, hstops, hposition⟩ := ih (exceptMap_eq_error_iff.mp h)
      refine ⟨['\\', c] ++ before, tail, hstops.cons ['\\', c] (Means.escape c) ?_, ?_⟩
      · intro lexemes hsplits
        exact Splits.escape c hsplits
      · simp only [List.length_append, List.length_cons, List.length_nil]
        omega
  | case4 position rest body hcut =>
      cases h
      exact ⟨[], _, stopsAt_self (Breaks.openReference (Text.cut_eq_none_iff.mp hcut).2), rfl⟩
  | case5 position rest body tail hcut cause hcause =>
      cases h
      obtain ⟨rfl, hbody⟩ := Text.cut_eq_some_iff.mp hcut
      exact ⟨[], _, stopsAt_self (Breaks.reference tail hbody hcause), rfl⟩
  | case6 position rest body tail hcut item hitem ih =>
      obtain ⟨before, tail', hstops, hposition⟩ := ih (exceptMap_eq_error_iff.mp h)
      obtain ⟨rfl, hbody⟩ := Text.cut_eq_some_iff.mp hcut
      have hsplits : ∀ lexemes, Splits before lexemes →
          Splits (('$' :: '\x7b' :: (body ++ ['\x7d'])) ++ before)
            (.reference body :: lexemes) := by
        intro lexemes hsplits
        simpa using Splits.reference body hbody hsplits
      have hcons := hstops.cons _ (readReference_eq_ok_iff.mp hitem) hsplits
      refine ⟨_, tail', by simpa using hcons, ?_⟩
      simp only [List.length_append, List.length_cons]
      omega
  | case7 position rest body hcut =>
      cases h
      exact ⟨[], _, stopsAt_self (Breaks.openPlaceholder (Text.cut_eq_none_iff.mp hcut).2), rfl⟩
  | case8 position rest body tail hcut cause hcause =>
      cases h
      obtain ⟨rfl, hbody⟩ := Text.cut_eq_some_iff.mp hcut
      exact ⟨[], _, stopsAt_self (Breaks.placeholder tail hbody hcause), rfl⟩
  | case9 position rest body tail hcut item hitem ih =>
      obtain ⟨before, tail', hstops, hposition⟩ := ih (exceptMap_eq_error_iff.mp h)
      obtain ⟨rfl, hbody⟩ := Text.cut_eq_some_iff.mp hcut
      have hsplits : ∀ lexemes, Splits before lexemes →
          Splits (('<' :: (body ++ ['>'])) ++ before) (.placeholder body :: lexemes) := by
        intro lexemes hsplits
        simpa using Splits.placeholder body hbody hsplits
      have hcons := hstops.cons _ (readPlaceholder_eq_ok_iff.mp hitem) hsplits
      refine ⟨_, tail', by simpa using hcons, ?_⟩
      simp only [List.length_append, List.length_cons]
      omega
  | case10 position c rest hescape hbrace hmark ih =>
      obtain ⟨before, tail, hstops, hposition⟩ := ih (exceptMap_eq_error_iff.mp h)
      refine ⟨[c] ++ before, tail, hstops.cons [c] (Means.plain c) ?_, ?_⟩
      · intro lexemes hsplits
        refine Splits.plain c hescape hmark ?_ hsplits
        intro hdollar hhead
        obtain ⟨more, rfl⟩ := List.head?_eq_some_iff.mp hhead
        exact hbrace _ hdollar hstops.eq_append
      · simp only [List.length_append, List.length_cons, List.length_nil]
        omega

/-- A text is rejected exactly if it can be read up to the fault and breaks there. -/
theorem items_eq_error_iff {position : Nat} {cs : List Char} {fault : Fault} :
    items position cs = .error fault ↔ ∃ before rest, StopsAt cs before rest fault.cause ∧
      fault.position = position + before.length := by
  refine ⟨exists_stopsAt_of_items, ?_⟩
  intro h
  obtain ⟨before, rest, hstops, hposition⟩ := h
  rw [hstops.items_eq position, ← hposition]

/-! ## Closing marks -/

/-- The first offset from a start on where a mark stands. -/
structure FirstFrom (mark : Char) (cs : List Char) (start offset : Nat) : Prop where
  start_le : start ≤ offset
  mark_at : cs[offset]? = some mark
  first : ∀ i, start ≤ i → i < offset → cs[i]? ≠ some mark

/-- A reference or a placeholder begins at one offset, and its closing mark stands at another. -/
inductive ClosedAt (cs : List Char) (start offset : Nat) : Prop
  | reference (dollar : cs[start]? = some '$') (brace : cs[start + 1]? = some '\x7b')
      (mark : FirstFrom '\x7d' cs (start + 2) offset)
  | placeholder (opened : cs[start]? = some '<') (mark : FirstFrom '>' cs (start + 1) offset)

/-- What stands between the start and the mark. -/
theorem FirstFrom.exists_body {mark : Char} {cs : List Char} {start offset : Nat}
    (h : FirstFrom mark cs start offset) :
    ∃ body, mark ∉ body ∧ cs.take (offset + 1) = cs.take start ++ (body ++ [mark]) := by
  refine ⟨(cs.take offset).drop start, ?_, ?_⟩
  · intro hmem
    obtain ⟨i, hi⟩ := List.mem_iff_getElem?.mp hmem
    rw [List.getElem?_drop, List.getElem?_take] at hi
    split at hi
    · rename_i hlt
      exact h.first (start + i) (by omega) hlt hi
    · cases hi
  · have hstart : cs.take start = (cs.take offset).take start := by
      rw [List.take_take, Nat.min_eq_left h.start_le]
    rw [List.take_add_one, h.mark_at, hstart, ← List.append_assoc, List.take_append_drop]
    rfl

/-- A closed reference or placeholder, with its body. -/
theorem ClosedAt.exists_body {cs : List Char} {start offset : Nat}
    (h : ClosedAt cs start offset) :
    (∃ body, '\x7d' ∉ body ∧
      cs.take (offset + 1) = cs.take start ++ '$' :: '\x7b' :: (body ++ ['\x7d'])) ∨
    ∃ body, '>' ∉ body ∧ cs.take (offset + 1) = cs.take start ++ '<' :: (body ++ ['>']) := by
  cases h with
  | reference dollar brace mark =>
      obtain ⟨body, hbody, htake⟩ := mark.exists_body
      refine Or.inl ⟨body, hbody, ?_⟩
      rw [htake, List.take_add_one, brace, List.take_add_one, dollar]
      simp
  | placeholder opened mark =>
      obtain ⟨body, hbody, htake⟩ := mark.exists_body
      refine Or.inr ⟨body, hbody, ?_⟩
      rw [htake, List.take_add_one, opened]
      simp

theorem Breaks.readReference_eq {body rest : List Char} {cause : Cause} (first : '\x7d' ∉ body)
    (h : Breaks ('$' :: '\x7b' :: (body ++ '\x7d' :: rest)) cause) :
    readReference body = .error cause := by
  generalize hcs : '$' :: '\x7b' :: (body ++ '\x7d' :: rest) = cs at h
  cases h with
  | dangling => cases hcs
  | openReference mark =>
      rw [← (List.cons.inj (List.cons.inj hcs).2).2] at mark
      simp at mark
  | reference rest' first' bad =>
      have hbody := (List.cons.inj (List.cons.inj hcs).2).2
      rw [(Text.append_cons_inj first first' hbody).1]
      exact bad
  | openPlaceholder => cases hcs
  | placeholder => cases hcs

theorem Breaks.readPlaceholder_eq {body rest : List Char} {cause : Cause} (first : '>' ∉ body)
    (h : Breaks ('<' :: (body ++ '>' :: rest)) cause) : readPlaceholder body = .error cause := by
  generalize hcs : '<' :: (body ++ '>' :: rest) = cs at h
  cases h with
  | dangling => cases hcs
  | openReference => cases hcs
  | reference => cases hcs
  | openPlaceholder mark =>
      rw [← (List.cons.inj hcs).2] at mark
      simp at mark
  | placeholder rest' first' bad =>
      rw [(Text.append_cons_inj first first' (List.cons.inj hcs).2).1]
      exact bad

/-- Behind the closing mark of what breaks there may be anything. -/
theorem StopsAt.extend {cs before rest cs' : List Char} {cause : Cause} {offset : Nat}
    (h : StopsAt cs before rest cause) (hclosed : ClosedAt cs before.length offset)
    (hcs' : cs.take (offset + 1) <+: cs') : ∃ rest', StopsAt cs' before rest' cause := by
  have hbefore : cs.take before.length = before := by
    rw [h.eq_append, List.take_left]
  obtain ⟨more, rfl⟩ := hcs'
  have hbreaks : ∀ opened : List Char, cs.take (offset + 1) = cs.take before.length ++ opened →
      Breaks (opened ++ cs.drop (offset + 1)) cause := by
    intro opened htake
    have hrest : before ++ (opened ++ cs.drop (offset + 1)) = before ++ rest := by
      rw [← List.append_assoc, ← h.eq_append]
      nth_rewrite 1 [← hbefore]
      rw [← htake, List.take_append_drop]
    rw [List.append_cancel_left hrest]
    exact h.breaks
  rcases hclosed.exists_body with ⟨body, hbody, htake⟩ | ⟨body, hbody, htake⟩
  · have hbad := hbreaks _ htake
    rw [List.cons_append, List.cons_append, List.append_assoc] at hbad
    refine ⟨_, ?_, h.readable, Breaks.reference more hbody (hbad.readReference_eq hbody)⟩
    rw [htake, hbefore]
    simp
  · have hbad := hbreaks _ htake
    rw [List.cons_append, List.append_assoc] at hbad
    refine ⟨_, ?_, h.readable, Breaks.placeholder more hbody (hbad.readPlaceholder_eq hbody)⟩
    rw [htake, hbefore]
    simp

/-! ## Faults -/

theorem parse_eq_error_iff {text : String} {fault : Fault} :
    parse text = .error fault ↔ ∃ before rest, StopsAt text.toList before rest fault.cause ∧
      fault.position = before.length := by
  rw [parse, exceptMap_eq_error_iff, items_eq_error_iff]
  simp only [Nat.zero_add]

/-- A fault points into the text, at the beginning of an item.  Everything before it can be read,
and if the item is closed then nothing that follows its closing mark changes the fault. -/
theorem parse_error_position {text : String} {fault : Fault} (h : parse text = .error fault) :
    (∀ path, (fault.diagnostic path).column = some (fault.position : Int)) ∧
    fault.position < text.length ∧
    (∃ c ∈ openers, text.toList[fault.position]? = some c) ∧
    (∃ e, parse (String.ofList (text.toList.take fault.position)) = .ok e) ∧
    ∀ offset, ClosedAt text.toList fault.position offset →
      ∀ text' : String, text.toList.take (offset + 1) <+: text'.toList →
        parse text' = .error fault := by
  obtain ⟨before, rest, hstops, hposition⟩ := parse_eq_error_iff.mp h
  obtain ⟨c, more, rfl, hc⟩ := hstops.breaks.exists_opener
  refine ⟨fun _ => rfl, ?_, ⟨c, hc, ?_⟩, ?_, ?_⟩
  · rw [← String.length_toList, hstops.eq_append, hposition]
    simp
  · rw [hstops.eq_append, hposition]
    simp
  · obtain ⟨lexemes, list, hsplits, hmeans⟩ := hstops.readable
    refine ⟨_, exceptMap_eq_ok_iff.mpr ⟨list, ?_, rfl⟩⟩
    rw [String.toList_ofList, hstops.eq_append, hposition, List.take_left]
    exact items_of_splits 0 hsplits hmeans
  · intro offset hclosed text' hprefix
    rw [hposition] at hclosed
    obtain ⟨rest', hstops'⟩ := hstops.extend hclosed hprefix
    exact parse_eq_error_iff.mpr ⟨before, rest', hstops', hposition⟩

/-- A type that does not exist, behind an escape, a lone dollar sign and a reference, and before a
reference that is not closed. -/
def misspelledText : String := "$x\\<$\x7b!super\x7d/<id:numbr>/$\x7b"

def misspelledFault : Fault := ⟨.typeSpec (.unknownType "numbr"), 14⟩

theorem parse_error_position_misspelled :
    parse misspelledText = .error misspelledFault ∧ ClosedAt misspelledText.toList 14 23 ∧
      (∃ e, parse "$x\\<$\x7b!super\x7d/" = .ok e) ∧
      parse "$x\\<$\x7b!super\x7d/<id:numbr>\\" = .error misspelledFault := by
  have hfault : parse misspelledText = .error misspelledFault := by decide +kernel
  have hfirst : ∀ i < 23, 15 ≤ i → misspelledText.toList[i]? ≠ some '>' := by decide
  have hclosed : ClosedAt misspelledText.toList 14 23 := by
    refine ClosedAt.placeholder (by decide) ⟨by decide, by decide, ?_⟩
    exact fun i hstart hlt => hfirst i hlt hstart
  obtain ⟨-, -, -, hbefore, hafter⟩ := parse_error_position hfault
  exact ⟨hfault, hclosed, hbefore, hafter 23 hclosed _ (by decide)⟩

end Expression
end ClientForge
