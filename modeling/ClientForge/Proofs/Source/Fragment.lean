import ClientForge.Proofs.Check.Brackets
import ClientForge.Proofs.Text.OneLine
import ClientForge.Source.Script
/-!
# Fragments of sources

The smallest texts that a source is put together from, each read through by the bracket check:
names, numbers, string literals, and URLs.  Whatever a document says ends up inside a literal,
where a backslash stands before everything that could end it.
-/

namespace ClientForge
namespace Source
namespace Script

open Check.Brackets

/-- The bracket check reads a text, which takes the innermost open brackets from `s` to `t`. -/
def Reads (s : List Char) (text : String) (t : List Char) : Prop :=
  Turns s text.toList t

theorem Reads.append {s t u : List Char} {a b : String} (ha : Reads s a t) (hb : Reads t b u) :
    Reads s (a ++ b) u := by
  rw [Reads, String.toList_append]
  exact Turns.append ha hb

/-- A fixed text is read by evaluation. -/
theorem reads_of_turn? {s t : List Char} {text : String} (h : turn? s text.toList = some t) :
    Reads s text t :=
  turns_of_turn? h

/-! ## Names and numbers -/

/-- The quotes, the brackets, and the slash of comments. -/
def marks : List Char :=
  ['"', '\'', '\x60', '/', '\x7b', '(', '[', '\x7d', ')', ']']

/-- All other characters are plain. -/
theorem isPlain_of_not_mem_marks {c : Char} (h : c ∉ marks) : isPlain c = true := by
  simp only [marks, List.mem_cons, List.not_mem_nil, or_false, not_or] at h
  obtain ⟨hdouble, hsingle, hback, hslash, hbrace, hparen, hbracket, hbrace', hparen',
    hbracket'⟩ := h
  have hquote : isQuote c = false := by simp [isQuote, hdouble, hsingle, hback]
  have hopening : isOpening c = false := by simp [isOpening, hbrace, hparen, hbracket]
  have hpartner : partner? c = none := by
    rw [partner?, if_neg hbrace', if_neg hparen', if_neg hbracket']
  simp [isPlain, hquote, hopening, hpartner, hslash]

/-- A text is read through if its characters are of a class without marks. -/
theorem reads_of_forall {p : Char → Bool} {text : String}
    (hmarks : (marks.all fun c => !p c) = true) (h : ∀ c ∈ text.toList, p c = true)
    (s : List Char) : Reads s text s := by
  refine turns_of_plain (fun c hc => isPlain_of_not_mem_marks fun hmem => ?_) s
  have hmark := List.all_eq_true.mp hmarks c hmem
  rw [h c hc] at hmark
  cases hmark

/-- A text that can stand anywhere in code: identifier characters, and line feeds. -/
def Tame (text : String) : Prop :=
  ∀ c ∈ text.toList, Text.isIdentifierChar c = true ∨ c = '\n'

instance (text : String) : Decidable (Tame text) :=
  List.decidableBAll _ text.toList

theorem reads_of_tame {text : String} (h : Tame text) (s : List Char) : Reads s text s := by
  have hmarks : (marks.all fun c => !(Text.isIdentifierChar c || c == '\n')) = true := by decide
  refine reads_of_forall hmarks (fun c hc => ?_) s
  rw [Bool.or_eq_true, beq_iff_eq]
  exact h c hc

theorem reads_of_isNumberChar {text : String}
    (h : ∀ c ∈ text.toList, Text.isNumberChar c = true) (s : List Char) : Reads s text s :=
  reads_of_forall (by decide) h s

theorem reads_integer (n : Int) (s : List Char) : Reads s (toString n) s :=
  reads_of_isNumberChar (fun _ hc => Text.isNumberChar_of_mem_toString hc) s

theorem reads_number (x : Binary64) (s : List Char) : Reads s (x.render specials) s := by
  refine reads_of_isNumberChar ?_ s
  cases x with
  | nan => exact List.all_eq_true.mp (by decide)
  | infinite negative =>
      cases negative with
      | false => exact List.all_eq_true.mp (by decide)
      | true => exact List.all_eq_true.mp (by decide)
  | finite negative significand exponent =>
      exact fun c hc => Binary64.isNumberChar_of_mem_render_finite hc

/-! ## String literals -/

/-- The escape of a unit has nothing but letters and digits after its backslash. -/
theorem inside_unitEscape (n : Nat) : Inside '"' (Text.unitEscape n) := by
  have hword : ∀ {c : Char}, Text.isWordChar c = true → c ≠ '\\' ∧ c ≠ '"' := by
    intro c hc
    constructor
    · rintro rfl
      revert hc
      decide
    · rintro rfl
      revert hc
      decide
  have hhex : Inside '"' (Text.hex 4 n) :=
    inside_of_forall fun c hc => hword (Text.isWordChar_of_mem_hex hc)
  exact (inside_escape '"' 'u').append hhex

/-- No character can end the literal that it stands in. -/
theorem inside_asciiChar (c : Char) : Inside '"' (Text.asciiChar c) := by
  unfold Text.asciiChar
  by_cases hquote : c = '"'
  · rw [if_pos hquote]
    exact inside_escape '"' '"'
  rw [if_neg hquote]
  by_cases hbackslash : c = '\\'
  · rw [if_pos hbackslash]
    exact inside_escape '"' '\\'
  rw [if_neg hbackslash]
  -- the other branches differ in what follows the backslash only
  repeat' split
  · exact inside_escape '"' 'n'
  · exact inside_escape '"' 'r'
  · exact inside_escape '"' 't'
  · exact inside_escape '"' 'b'
  · exact inside_escape '"' 'f'
  · exact inside_char hbackslash hquote
  · exact inside_unitEscape _
  · exact (inside_unitEscape _).append (inside_unitEscape _)

/-- A string literal is read through, whatever it says. -/
theorem reads_asciiLiteral (text : String) (s : List Char) :
    Reads s (Text.asciiLiteral text) s := by
  rw [Reads, Text.asciiLiteral, String.toList_ofList]
  exact turns_literal (by decide) (by decide) (inside_flatMap fun c _ => inside_asciiChar c) s

/-- A default value is read through. -/
theorem reads_literal (value : Literal) (s : List Char) : Reads s (literal value) s := by
  cases value with
  | null => exact reads_of_tame (by decide) s
  | boolean b =>
      cases b with
      | false => exact reads_of_tame (by decide) s
      | true => exact reads_of_tame (by decide) s
  | integer n => exact reads_integer n s
  | number x => exact reads_number x s
  | string text => exact reads_asciiLiteral text s

/-! ## URLs -/

/-- Text inside a template literal cannot end it: neither by a quote of its own nor by a backslash
in front of the quote that ends it. -/
theorem inside_templateText (cs : List Char) : Inside '\x60' (templateText cs) := by
  fun_induction templateText cs with
  | case1 => exact inside_nil _
  | case2 rest ih =>
      have hbrace : Inside '\x60' ['\x7b'] := inside_char (by decide) (by decide)
      exact (inside_escape '\x60' '$').append (hbrace.append ih)
  | case3 c rest _ hescape ih => exact (inside_escape '\x60' c).append ih
  | case4 c rest _ hplain ih =>
      rw [Bool.or_eq_true, decide_eq_true_iff, decide_eq_true_iff, not_or] at hplain
      exact (inside_char hplain.1 hplain.2).append ih

/-- The identifier of a parameter piece can stand anywhere in code. -/
def TamePiece : UrlPiece → Prop
  | .param name _ => Tame name
  | _ => True

theorem inside_of_tame {text : String} (h : Tame text) : Inside '\x60' text.toList := by
  refine inside_of_forall fun c hc => ?_
  constructor
  · rintro rfl
    exact absurd (h _ hc) (by decide)
  · rintro rfl
    exact absurd (h _ hc) (by decide)

private theorem inside_repeated {text : String} (h : Inside '\x60' text.toList) (n : Nat) :
    Inside '\x60' (Text.repeated text n).toList := by
  induction n with
  | zero => exact inside_nil _
  | succ n ih =>
      rw [Text.repeated, String.toList_append]
      exact h.append ih

theorem inside_templatePiece {p : UrlPiece} (h : TamePiece p) :
    Inside '\x60' (templatePiece p).toList := by
  have hfixed : ∀ text : String, '\\' ∉ text.toList → '\x60' ∉ text.toList →
      Inside '\x60' text.toList := fun _ hback hquote =>
    inside_of_forall fun _ hc => ⟨ne_of_mem_of_not_mem hc hback, ne_of_mem_of_not_mem hc hquote⟩
  cases p with
  | text text =>
      change Inside '\x60' (String.ofList (templateText text.toList)).toList
      rw [String.toList_ofList]
      exact inside_templateText _
  | param name type =>
      have hopen := hfixed "$\x7bencodeURIComponent(" (by decide) (by decide)
      have hclose := hfixed ")\x7d" (by decide) (by decide)
      change Inside '\x60' ("$\x7bencodeURIComponent(" ++ name ++ ")\x7d").toList
      rw [String.toList_append, String.toList_append]
      exact (hopen.append (inside_of_tame h)).append hclose
  | base hops =>
      have hopen := hfixed "$\x7bthis" (by decide) (by decide)
      have hsuper := hfixed "._super" (by decide) (by decide)
      have hclose := hfixed "._url\x7d" (by decide) (by decide)
      change Inside '\x60' ("$\x7bthis" ++ Text.repeated "._super" hops ++ "._url\x7d").toList
      rw [String.toList_append, String.toList_append]
      exact (hopen.append (inside_repeated hsuper hops)).append hclose

/-- The expression for a URL is read through. -/
theorem reads_url {pieces : List UrlPiece} (h : ∀ p ∈ pieces, TamePiece p) (s : List Char) :
    Reads s (url pieces) s := by
  unfold url
  split
  · exact reads_asciiLiteral _ s
  · have hinside : Inside '\x60' (String.join (pieces.map templatePiece)).toList := by
      rw [String.toList_join, List.flatMap_map]
      exact inside_flatMap fun p hp => inside_templatePiece (h p hp)
    rw [Reads, String.toList_append, String.toList_append]
    exact turns_literal (by decide) (by decide) hinside s

end Script
end Source
end ClientForge
