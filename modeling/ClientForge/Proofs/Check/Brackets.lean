import ClientForge.Check.Brackets
import ClientForge.Proofs.Basics
/-!
# Texts that the bracket check reads through

`Turns s cs t` says that the check, standing in code with the brackets `s` open, reads the
characters `cs` without a fault and stands in code again with `t` open, whatever is open further
out and whatever follows.  Such texts can be put one after the other, so a generated source is read
through as soon as its fragments are:

* `turns_of_turn?` for fixed texts, by evaluation;
* `turns_of_plain` for names and numbers;
* `turns_literal` for quoted literals, whose inside is described by `Inside`;
* `turns_comment` for line comments together with the line feed that ends them.
-/

namespace ClientForge
namespace Check
namespace Brackets

/-- Reading the characters takes the innermost open brackets from `s` to `t`. -/
def Turns (s cs t : List Char) : Prop :=
  ∀ offset opened rest,
    walk offset (s ++ opened) .code (cs ++ rest) =
      walk (offset + cs.length) (t ++ opened) .code rest

theorem turns_nil (s : List Char) : Turns s [] s :=
  fun _ _ _ => rfl

theorem Turns.append {s t u cs ds : List Char} (h : Turns s cs t) (h' : Turns t ds u) :
    Turns s (cs ++ ds) u := by
  intro offset opened rest
  rw [List.append_assoc, h, h', List.length_append, Nat.add_assoc]

/-! ## Fixed texts -/

/-- The open brackets after one more character of code that begins neither a literal nor a
comment. -/
def turnChar? (s : List Char) (c : Char) : Option (List Char) :=
  if isQuote c || c == '/' then none
  else if isOpening c then some (c :: s)
  else
    match partner? c with
    | none => some s
    | some partner =>
        match s with
        | [] => none
        | innermost :: outer => if innermost = partner then some outer else none

/-- The open brackets after characters of code without literals and comments. -/
def turn? (s : List Char) : List Char → Option (List Char)
  | [] => some s
  | c :: cs => (turnChar? s c).bind fun t => turn? t cs

theorem turns_of_turnChar? {s t : List Char} {c : Char} (h : turnChar? s c = some t) :
    Turns s [c] t := by
  intro offset opened rest
  unfold turnChar? at h
  split at h
  · cases h
  · rename_i hplain
    rw [Bool.or_eq_true, not_or, beq_iff_eq] at hplain
    obtain ⟨hquote, hslash⟩ := hplain
    -- whatever follows, no comment begins here
    have hcomment : ¬ (c = '/' ∧ rest.head? = some '/') := fun hboth => hslash hboth.1
    rw [List.singleton_append, walk, if_neg hquote, if_neg hcomment]
    split at h
    · rename_i hopening
      cases h
      rw [if_pos hopening]
      rfl
    · rename_i hopening
      rw [if_neg hopening]
      cases hpartner : partner? c with
      | none =>
          simp only [hpartner] at h
          cases h
          rfl
      | some partner =>
          simp only [hpartner] at h
          cases s with
          | nil => cases h
          | cons innermost outer =>
              simp only at h
              split at h
              · rename_i hmatch
                cases h
                simp only [List.cons_append, if_pos hmatch]
                rfl
              · cases h

theorem turns_of_turn? {s t cs : List Char} (h : turn? s cs = some t) : Turns s cs t := by
  induction cs generalizing s with
  | nil =>
      cases h
      exact turns_nil _
  | cons c cs ih =>
      obtain ⟨u, hchar, hrest⟩ := Option.bind_eq_some_iff.mp h
      exact (turns_of_turnChar? hchar).append (ih hrest)

/-! ## Plain text -/

/-- A character of code that changes nothing. -/
def isPlain (c : Char) : Bool :=
  !(isQuote c || c == '/' || isOpening c || (partner? c).isSome)

theorem turns_of_plain {cs : List Char} (h : ∀ c ∈ cs, isPlain c = true) (s : List Char) :
    Turns s cs s := by
  induction cs with
  | nil => exact turns_nil s
  | cons c cs ih =>
      rw [List.forall_mem_cons] at h
      have hc := h.1
      simp only [isPlain, Bool.not_eq_true', Bool.or_eq_false_iff] at hc
      obtain ⟨⟨⟨hquote, hslash⟩, hopening⟩, hpartner⟩ := hc
      have hchar : turnChar? s c = some s := by
        rw [Option.isSome_eq_false_iff, Option.isNone_iff_eq_none] at hpartner
        simp [turnChar?, hquote, hslash, hopening, hpartner]
      exact (turns_of_turnChar? hchar).append (ih h.2)

/-! ## Literals -/

/-- Characters that keep the check inside a literal with the given quote. -/
def Inside (quote : Char) (cs : List Char) : Prop :=
  ∀ offset opened start rest,
    walk offset opened (.quoted quote start) (cs ++ rest) =
      walk (offset + cs.length) opened (.quoted quote start) rest

theorem inside_nil (quote : Char) : Inside quote [] :=
  fun _ _ _ _ => rfl

theorem Inside.append {quote : Char} {cs ds : List Char} (h : Inside quote cs)
    (h' : Inside quote ds) : Inside quote (cs ++ ds) := by
  intro offset opened start rest
  rw [List.append_assoc, h, h', List.length_append, Nat.add_assoc]

theorem inside_char {quote c : Char} (hbackslash : c ≠ '\\') (hquote : c ≠ quote) :
    Inside quote [c] := by
  intro offset opened start rest
  rw [List.singleton_append, walk, if_neg hbackslash, if_neg hquote]
  rfl

/-- A backslash takes the next character with it. -/
theorem inside_escape (quote c : Char) : Inside quote ['\\', c] := by
  intro offset opened start rest
  rw [List.cons_append, List.singleton_append, walk, if_pos rfl, walk]
  rfl

theorem inside_of_forall {quote : Char} {cs : List Char}
    (h : ∀ c ∈ cs, c ≠ '\\' ∧ c ≠ quote) : Inside quote cs := by
  induction cs with
  | nil => exact inside_nil quote
  | cons c cs ih =>
      rw [List.forall_mem_cons] at h
      exact (inside_char h.1.1 h.1.2).append (ih h.2)

theorem inside_flatMap {α : Type} {quote : Char} {f : α → List Char} {list : List α}
    (h : ∀ a ∈ list, Inside quote (f a)) : Inside quote (list.flatMap f) := by
  induction list with
  | nil => exact inside_nil quote
  | cons a list ih =>
      rw [List.forall_mem_cons] at h
      rw [List.flatMap_cons]
      exact h.1.append (ih h.2)

/-- A quoted literal is read through. -/
theorem turns_literal {quote : Char} {cs : List Char} (hquote : isQuote quote = true)
    (hbackslash : quote ≠ '\\') (h : Inside quote cs) (s : List Char) :
    Turns s (quote :: cs ++ [quote]) s := by
  intro offset opened rest
  rw [List.cons_append, List.cons_append, walk, if_pos hquote, List.append_assoc, h,
    List.singleton_append, walk, if_neg hbackslash, if_pos rfl]
  simp only [List.length_cons, List.length_append, List.length_nil]
  congr 1
  omega

/-! ## Comments -/

/-- Inside a comment nothing counts until the line ends. -/
private theorem walk_comment {cs : List Char} (h : '\n' ∉ cs) (offset : Nat)
    (opened rest : List Char) :
    walk offset opened .comment (cs ++ '\n' :: rest) =
      walk (offset + cs.length + 1) opened .code rest := by
  induction cs generalizing offset with
  | nil => rfl
  | cons c cs ih =>
      rw [List.mem_cons, not_or] at h
      rw [List.cons_append, walk, if_neg (Ne.symm h.1), ih h.2, List.length_cons]
      congr 1
      omega

/-- A line comment is read through once its line has ended. -/
theorem turns_comment {cs : List Char} (h : '\n' ∉ cs) (s : List Char) :
    Turns s ('/' :: '/' :: cs ++ ['\n']) s := by
  intro offset opened rest
  -- the second slash already belongs to the comment
  have hslash : '\n' ∉ '/' :: cs := by
    rw [List.mem_cons, not_or]
    exact ⟨by decide, h⟩
  have htext : '/' :: '/' :: cs ++ ['\n'] ++ rest = '/' :: (('/' :: cs) ++ '\n' :: rest) := by
    simp
  have hquote : ¬ isQuote '/' = true := by decide
  rw [htext, walk, if_neg hquote, if_pos ⟨rfl, rfl⟩, walk_comment hslash]
  simp only [List.length_cons, List.length_append, List.length_nil]
  congr 1
  omega

/-! ## Whole texts -/

/-- A text is found exactly where it stands. -/
theorem contains_iff_isInfix {needle cs : List Char} :
    Text.contains needle cs = true ↔ needle <:+: cs := by
  induction cs with
  | nil => rw [Text.contains, List.isEmpty_iff, List.infix_nil]
  | cons c cs ih =>
      rw [Text.contains, Bool.or_eq_true, List.isPrefixOf_iff_prefix, ih, List.infix_cons_iff]

/-- A text passes if it declares a class and is read through from beginning to end. -/
theorem check_eq_ok {content : String} (hclass : "class ".toList <:+: content.toList)
    (h : Turns [] content.toList []) : check content = .ok () := by
  have hwalk := h 0 [] []
  rw [List.append_nil, List.append_nil] at hwalk
  rw [check, if_pos (contains_iff_isInfix.mpr hclass), hwalk]
  rfl

end Brackets
end Check
end ClientForge
