import ClientForge.Proofs.Client.Names
import ClientForge.Proofs.Source.Decorator
import ClientForge.Proofs.Source.Signature
import ClientForge.Proofs.Text.OneLine
/-!
# Python statements are single lines

Every statement of a printed class is one line, if the names in the class are: texts of the document
stand in quotes, where a line feed is escaped.  In a formatted string this has to be shown along the
parts, since each of them is escaped in its own way and decides on the quotes that remain.  It holds
in every release of Python (`oneLine_literal`).
-/

namespace ClientForge
namespace Source

open Text

namespace FormattedText

/-- The quotes that remain have no line feed in them. -/
def PlainQuotes (qs : List (List Char)) : Prop :=
  ∀ q ∈ qs, '\n' ∉ q

theorem plainQuotes_quotes : PlainQuotes quotes := by
  unfold PlainQuotes quotes
  simp

/-- Only the code of an expression must not have line feeds itself. -/
def Part.OneLine : Part → Prop
  | .text _ => True
  | .expression code => Text.OneLine code

theorem feed_not_mem_guardLast {cs : List Char} (h : '\n' ∉ cs) : '\n' ∉ guardLast cs := by
  fun_induction guardLast cs with
  | case1 => exact h
  | case2 c => simpa using h
  | case3 c cs _ ih =>
      rw [List.mem_cons, not_or] at h ⊢
      exact ⟨h.1, ih h.2⟩

/-- What is written for a part has line feeds only if the part is an expression with some. -/
theorem feed_not_mem_escaped {part : Part} {cs : List Char} (hpart : part.OneLine)
    (h : part.written = .ok cs) : '\n' ∉ part.escaped cs := by
  cases part with
  | text s => exact feed_not_mem_flatMap_escapeChar cs
  | expression code =>
      have hcs : '\n' ∉ cs := by
        rw [Part.written] at h
        split at h
        · cases h
        · cases h
          have hcode : '\n' ∉ code.toList := hpart
          split
          · simp [hcode]
          · simp [hcode]
      intro hmem
      obtain ⟨c, hc, hfeed⟩ := List.mem_flatMap.mp hmem
      split at hfeed
      · rw [List.mem_singleton.mp hfeed] at hcs
        exact hcs hc
      · exact feed_not_mem_escapeChar c hfeed

theorem plainQuotes_filter {qs : List (List Char)} (h : PlainQuotes qs) (p : List Char → Bool) :
    PlainQuotes (qs.filter p) :=
  fun q hq => h q (List.mem_of_mem_filter hq)

theorem plainQuotes_preferOther {qs : List (List Char)} (h : PlainQuotes qs) (last : Char) :
    PlainQuotes (preferOther last qs) :=
  List.forall_mem_append.mpr ⟨plainQuotes_filter h _, plainQuotes_filter h _⟩

/-- One part: nothing written has a line feed, nor has any quote that remains. -/
theorem oneLine_writePart {possible : List (List Char)} {part : Part} {cs : List Char}
    (hpossible : PlainQuotes possible) (hescaped : '\n' ∉ part.escaped cs) :
    '\n' ∉ (writePart possible part cs).1 ∧ PlainQuotes (writePart possible part cs).2 := by
  have hshort : (part.escaped cs).contains '\n' = false := by simpa using hescaped
  have hleft : PlainQuotes (possible.filter fun q => !Text.contains q (part.escaped cs)) :=
    plainQuotes_filter hpossible _
  have hquote := displayQuote_ne_feed cs
  unfold writePart
  simp only [hshort, Bool.false_eq_true, if_false]
  split
  · -- no quote is left: the part is displayed, and its quote is the only one that remains
    refine ⟨feed_not_mem_displayBody hquote cs, List.forall_mem_singleton.mpr ?_⟩
    cases hfind : possible.find? (·.contains (displayQuote cs)) with
    | none => simpa using hquote.symm
    | some q => exact hpossible q (List.mem_of_find?_eq_some hfind)
  · exact ⟨hescaped, hleft⟩
  · split
    · exact ⟨feed_not_mem_guardLast hescaped, plainQuotes_preferOther hleft _⟩
    · exact ⟨hescaped, plainQuotes_preferOther hleft _⟩

theorem oneLine_writeParts {possible last : List (List Char)} {parts : List Part}
    {body : List Char} (hpossible : PlainQuotes possible) (hparts : ∀ part ∈ parts, part.OneLine)
    (h : writeParts possible parts = .ok (body, last)) : '\n' ∉ body ∧ PlainQuotes last := by
  induction parts generalizing possible body with
  | nil =>
      cases h
      exact ⟨List.not_mem_nil, hpossible⟩
  | cons part rest ih =>
      rw [List.forall_mem_cons] at hparts
      obtain ⟨cs, hcs, h⟩ := exceptBind_eq_ok_iff.mp h
      obtain ⟨⟨others, _⟩, hothers, h⟩ := exceptBind_eq_ok_iff.mp h
      cases h
      obtain ⟨hhere, hnext⟩ := oneLine_writePart hpossible (feed_not_mem_escaped hparts.1 hcs)
      obtain ⟨hothers, hlast⟩ := ih hnext hparts.2 hothers
      exact ⟨List.not_mem_append hhere hothers, hlast⟩

/-- Parts that are written once more have no line feeds: all of them are escaped. -/
theorem feed_not_mem_rewriteParts {parts : List Part} {body : List Char}
    (h : rewriteParts parts = .ok body) : '\n' ∉ body := by
  induction parts generalizing body with
  | nil =>
      cases h
      exact List.not_mem_nil
  | cons part rest ih =>
      obtain ⟨cs, -, h⟩ := exceptBind_eq_ok_iff.mp h
      obtain ⟨others, hothers, h⟩ := exceptBind_eq_ok_iff.mp h
      cases h
      exact List.not_mem_append (feed_not_mem_displayBody (by decide) cs) (ih hothers)

theorem oneLine_bodyAndQuote {release : Release} {parts : List Part} {body quote : List Char}
    (hparts : ∀ part ∈ parts, part.OneLine)
    (h : bodyAndQuote release parts = .ok (body, quote)) : '\n' ∉ body ∧ '\n' ∉ quote := by
  obtain ⟨⟨first, possible⟩, hfirst, h⟩ := exceptBind_eq_ok_iff.mp h
  obtain ⟨clash, -, h⟩ := exceptBind_eq_ok_iff.mp h
  split at h
  · obtain ⟨again, hagain, h⟩ := exceptBind_eq_ok_iff.mp h
    cases h
    exact ⟨feed_not_mem_rewriteParts hagain, by decide⟩
  · cases h
    obtain ⟨hbody, hpossible⟩ := oneLine_writeParts plainQuotes_quotes hparts hfirst
    refine ⟨hbody, ?_⟩
    cases possible with
    | nil => exact List.not_mem_nil
    | cons q rest => exact hpossible q List.mem_cons_self

/-- A formatted string is one line in every release if the code of its expressions is. -/
theorem oneLine_literal {release : Release} {parts : List Part} {text : String}
    (hparts : ∀ part ∈ parts, part.OneLine) (h : literal release parts = .ok text) :
    Text.OneLine text := by
  obtain ⟨⟨body, quote⟩, hwritten, rfl⟩ := exceptMap_eq_ok_iff.mp h
  obtain ⟨hbody, hquote⟩ := oneLine_bodyAndQuote hparts hwritten
  rw [Text.OneLine, String.toList_ofList]
  simp [hquote, hbody]

end FormattedText

namespace PythonText

open Assembly

theorem oneLine_literal (value : Literal) : OneLine (literal value) := by
  cases value with
  | null => decide
  | boolean b =>
      cases b with
      | false => decide
      | true => decide
  | integer n => exact oneLine_of_forall (by decide) fun _ hc => isNumberChar_of_mem_toString hc
  | number x =>
      cases x with
      | nan => decide
      | infinite negative =>
          cases negative with
          | false => decide
          | true => decide
      | finite negative significand exponent =>
          have hnumber : ∀ c ∈ ((Binary64.finite negative significand exponent).render
              specials).toList, isNumberChar c = true :=
            fun _ hc => Binary64.isNumberChar_of_mem_render_finite hc
          exact oneLine_of_forall (by decide) hnumber
  | string s => exact oneLine_displayed s

theorem oneLine_typeName (type : Primitive) : OneLine (typeName type) := by
  cases type with
  | string => decide
  | number => decide
  | boolean => decide

theorem oneLine_parameter {a : Argument} (h : OneLine a.name) (default : Option Literal) :
    OneLine (parameter a default) := by
  have hcolon : OneLine ": " := by decide
  have hequals : OneLine "=" := by decide
  refine ((h.append hcolon).append (oneLine_typeName a.type)).append ?_
  cases default with
  | none => exact List.not_mem_nil
  | some value => exact hequals.append (oneLine_literal value)

/-- Parameters that are paired with defaults. -/
theorem oneLine_of_mem_zipWith {list : List Argument} (h : ∀ a ∈ list, OneLine a.name)
    (defaults : List (Option Literal)) :
    ∀ text ∈ List.zipWith parameter list defaults, OneLine text := by
  induction list generalizing defaults with
  | nil => simp
  | cons a rest ih =>
      rw [List.forall_mem_cons] at h
      cases defaults with
      | nil => simp
      | cons default others =>
          rw [List.zipWith_cons_cons, List.forall_mem_cons]
          exact ⟨oneLine_parameter h.1 default, ih h.2 others⟩

theorem oneLine_parameterList {list : List Argument} (h : ∀ a ∈ list, OneLine a.name) :
    OneLine (parameterList (signature list)) := by
  have happend := splitArguments_append false list
  have hpositional : ∀ a ∈ (signature list).positional, OneLine a.name := fun a ha =>
    h a (happend ▸ List.mem_append_left _ ha)
  have hkeyword : ∀ a ∈ (signature list).keywordOnly, OneLine a.name := fun a ha =>
    h a (happend ▸ List.mem_append_right _ ha)
  refine oneLine_join (by decide) ?_
  rw [List.cons_append, List.forall_mem_cons, List.forall_mem_append]
  refine ⟨by decide, oneLine_of_mem_zipWith hpositional _, ?_⟩
  split
  · simp
  · exact List.forall_mem_cons.mpr ⟨by decide, oneLine_of_mem_zipWith hkeyword _⟩

theorem oneLine_url {pieces : List UrlPiece} {text : String}
    (h : ∀ name type, .param name type ∈ pieces → OneLine name) (htext : url pieces = .ok text) :
    OneLine text := by
  unfold url at htext
  split at htext
  · cases htext
    exact oneLine_displayed _
  · refine FormattedText.oneLine_literal ?_ htext
    rw [List.forall_mem_map]
    intro p hp
    cases p with
    | text s => trivial
    | param name type =>
        have hopen : OneLine "_path(" := by decide
        have hclose : OneLine ")" := by decide
        exact (hopen.append (h name type hp)).append hclose
    | base hops =>
        have hself : OneLine "self" := by decide
        have hsuper : OneLine "._super" := by decide
        have hurl : OneLine "._url" := by decide
        exact (hself.append (oneLine_repeated hsuper hops)).append hurl

theorem oneLine_bag {key : String} {list : List Argument} (hkey : OneLine key)
    (h : ∀ a ∈ list, OneLine a.name) : ∀ text ∈ bag key list, OneLine text := by
  unfold bag
  split
  · simp
  · rw [List.forall_mem_singleton]
    have hopen : OneLine "=\x7b" := by decide
    have hclose : OneLine "\x7d" := by decide
    have hcolon : OneLine ": " := by decide
    refine ((hkey.append hopen).append (oneLine_join (by decide) ?_)).append hclose
    exact List.forall_mem_map.mpr fun a ha =>
      ((oneLine_displayed a.wireName).append hcolon).append (h a ha)

theorem oneLine_call {f : Method} {text : String} (h : NamedMethod OneLine f)
    (htext : call f.call = .ok text) : OneLine text := by
  obtain ⟨address, haddress, rfl⟩ := exceptMap_eq_ok_iff.mp htext
  have hopen : OneLine "requests.request(" := by decide
  have hclose : OneLine ")" := by decide
  refine (hopen.append (oneLine_join (by decide) ?_)).append hclose
  rw [List.cons_append, List.cons_append, List.forall_mem_cons, List.forall_mem_cons,
    List.forall_mem_append]
  exact ⟨oneLine_displayed _, oneLine_url h.url haddress, oneLine_bag (by decide) h.query,
    oneLine_bag (by decide) h.body⟩

theorem oneLine_defLine {name parameters result : String} (hname : OneLine name)
    (hparameters : OneLine parameters) (hresult : OneLine result) :
    OneLine (defLine name parameters result) := by
  have hdef : OneLine "    def " := by decide
  have hopen : OneLine "(" := by decide
  have harrow : OneLine ") -> " := by decide
  have hcolon : OneLine ":" := by decide
  exact (((((hdef.append hname).append hopen).append hparameters).append harrow).append
    hresult).append hcolon

theorem oneLine_bodyLine {statement : String} (h : OneLine statement) :
    OneLine (bodyLine statement) := by
  have hindent : OneLine "        " := by decide
  exact hindent.append h

/-! ## Statements of a class -/

theorem oneLine_of_mem_accessor {a : Accessor} (hname : OneLine a.name)
    (hclass : OneLine a.className) : ∀ line ∈ accessor a, OneLine line := by
  have hreturn : OneLine "return " := by decide
  have hself : OneLine "(self)" := by decide
  rw [accessor, List.forall_mem_cons, List.forall_mem_cons, List.forall_mem_singleton]
  exact ⟨by decide, oneLine_defLine hname (by decide) hclass,
    oneLine_bodyLine ((hreturn.append hclass).append hself)⟩

theorem oneLine_of_mem_method {f : Method} {group : List String} (h : NamedMethod OneLine f)
    (hgroup : method f = .ok group) : ∀ line ∈ group, OneLine line := by
  obtain ⟨request, hrequest, rfl⟩ := exceptMap_eq_ok_iff.mp hgroup
  have hreturn : OneLine "return " := by decide
  rw [List.forall_mem_cons, List.forall_mem_singleton]
  exact ⟨oneLine_defLine h.name (oneLine_parameterList h.arguments) (by decide),
    oneLine_bodyLine (hreturn.append (oneLine_call h hrequest))⟩

theorem oneLine_of_mem_constructor {ctor : Constructor} {built : List String}
    (harguments : ∀ a ∈ ctor.arguments, OneLine a.name)
    (hparent : ∀ name, ctor.parentClass = some name → OneLine name)
    (hbuilt : constructor ctor = .ok built) : ∀ line ∈ built, OneLine line := by
  unfold constructor at hbuilt
  split at hbuilt
  · rename_i parent hsome
    cases hbuilt
    have hself : OneLine "self, _super: " := by decide
    rw [List.forall_mem_cons, List.forall_mem_singleton]
    exact ⟨oneLine_defLine (by decide) (hself.append (hparent parent hsome)) (by decide),
      by decide⟩
  · split at hbuilt
    · cases hbuilt
    · rename_i first rest heq
      cases hbuilt
      have hset : OneLine "self._url = " := by decide
      have hfirst : OneLine first.name := harguments first (heq ▸ List.mem_cons_self)
      rw [List.forall_mem_cons, List.forall_mem_singleton]
      exact ⟨oneLine_defLine (by decide) (oneLine_parameterList harguments) (by decide),
        oneLine_bodyLine (hset.append hfirst)⟩

/-- Every statement of a class is one line if the names in the class are. -/
theorem oneLine_of_mem_classStatements {c : ClassDecl} {statements : List String}
    (h : NamedClass OneLine c) (hstatements : classStatements c = .ok statements) :
    ∀ line ∈ statements, OneLine line := by
  obtain ⟨built, hbuilt, hstatements⟩ := exceptBind_eq_ok_iff.mp hstatements
  obtain ⟨called, hcalled, hstatements⟩ := exceptBind_eq_ok_iff.mp hstatements
  cases hstatements
  obtain ⟨groups, hgroups, rfl⟩ := methods_eq_ok_iff.mp hcalled
  have hclass : OneLine "class " := by decide
  have hcolon : OneLine ":" := by decide
  simp only [List.cons_append, List.forall_mem_cons, List.forall_mem_append]
  refine ⟨(hclass.append h.name).append hcolon,
    ⟨oneLine_of_mem_constructor h.arguments h.parent hbuilt, ?_⟩, ?_⟩
  · intro line hline
    obtain ⟨a, ha, hline⟩ := List.mem_flatMap.mp hline
    exact oneLine_of_mem_accessor (h.accessors a ha).1 (h.accessors a ha).2 line hline
  · intro line hline
    obtain ⟨group, hgroup, hline⟩ := List.mem_flatten.mp hline
    obtain ⟨f, hf, hmethod⟩ := exists_left_of_forall₂ hgroups hgroup
    exact oneLine_of_mem_method (h.methods f hf) hmethod line hline

end PythonText
end Source
end ClientForge
