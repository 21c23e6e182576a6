import ClientForge.Proofs.Source.Fragment
/-!
# Sources that the bracket check reads through

A source is a list of lines.  `ReadsLines` reads them one after the other; moving lines to the right
and setting empty lines between groups changes nothing.  Every class that has tame names is read
through (`readsLines_classLines`), and so is the source of a module of such classes
(`turns_source`), provided that its comment stays on one line.
-/

namespace ClientForge
namespace Source
namespace Script

open Check.Brackets

/-! ## Lines -/

/-- The bracket check reads lines in a row. -/
def ReadsLines (s : List Char) : List String → List Char → Prop
  | [], t => s = t
  | line :: rest, t => ∃ u, Reads s line u ∧ ReadsLines u rest t

theorem ReadsLines.append {s t u : List Char} {ls ms : List String} (hls : ReadsLines s ls t)
    (hms : ReadsLines t ms u) : ReadsLines s (ls ++ ms) u := by
  induction ls generalizing s with
  | nil =>
      cases hls
      exact hms
  | cons line rest ih =>
      obtain ⟨v, hline, hrest⟩ := hls
      exact ⟨v, hline, ih hrest⟩

/-- Lines that are read one by one between the same brackets. -/
theorem readsLines_of_forall {s : List Char} {ls : List String}
    (h : ∀ line ∈ ls, Reads s line s) : ReadsLines s ls s := by
  induction ls with
  | nil => rfl
  | cons line rest ih =>
      rw [List.forall_mem_cons] at h
      exact ⟨s, h.1, ih h.2⟩

/-- A block: a line that opens, the lines inside, and a line that closes. -/
theorem readsLines_block {s t u : List Char} {first last : String} {inner : List String}
    (hfirst : Reads s first t) (hinner : ReadsLines t inner t) (hlast : Reads t last u) :
    ReadsLines s (first :: inner ++ [last]) u :=
  ⟨t, hfirst, hinner.append ⟨u, hlast, rfl⟩⟩

/-- Text that is put before lines does not matter if it can stand anywhere. -/
theorem ReadsLines.map {s t : List Char} {ls : List String} (h : ReadsLines s ls t)
    {f : String → String} (hf : ∀ line, ∃ front, (∀ r, Reads r front r) ∧ f line = front ++ line) :
    ReadsLines s (ls.map f) t := by
  induction ls generalizing s with
  | nil => exact h
  | cons line rest ih =>
      obtain ⟨u, hline, hrest⟩ := h
      obtain ⟨front, hfront, heq⟩ := hf line
      refine ⟨u, ?_, ih hrest⟩
      rw [heq]
      exact (hfront s).append hline

theorem reads_indentation (s : List Char) : Reads s indentation s :=
  reads_of_turn? rfl

private theorem reads_repeated_indentation (n : Nat) (s : List Char) :
    Reads s (Text.repeated indentation n) s := by
  induction n with
  | zero => exact turns_nil s
  | succ n ih => exact (reads_indentation s).append ih

theorem ReadsLines.indent {s t : List Char} {ls : List String} (h : ReadsLines s ls t)
    (level : Nat) : ReadsLines s (indent level ls) t := by
  unfold Source.indent
  split
  · exact h
  · refine h.map fun line => ?_
    split
    · exact ⟨"", turns_nil, by simp⟩
    · exact ⟨_, reads_repeated_indentation level, rfl⟩

theorem readsLines_spaced {s : List Char} {groups : List (List String)}
    (h : ∀ group ∈ groups, ReadsLines s group s) : ReadsLines s (spaced groups) s := by
  fun_induction spaced groups with
  | case1 => rfl
  | case2 group => exact h group List.mem_cons_self
  | case3 group rest _ ih =>
      rw [List.forall_mem_cons] at h
      exact h.1.append ⟨s, turns_nil s, ih h.2⟩

/-- Lines with a line feed after each. -/
def ended (ls : List String) : List Char :=
  ls.flatMap fun line => line.toList ++ ['\n']

theorem toList_unlines {ls : List String} (h : ls ≠ []) :
    (Text.unlines ls ++ "\n").toList = ended ls := by
  unfold Text.unlines
  fun_induction Text.join "\n" ls with
  | case1 => exact absurd rfl h
  | case2 line => simp [ended]
  | case3 line rest hrest ih =>
      rw [String.append_assoc, String.append_assoc, String.toList_append, String.toList_append,
        ih hrest, ended, ended, List.flatMap_cons, List.append_assoc]
      rfl

theorem turns_ended {s t : List Char} {ls : List String} (h : ReadsLines s ls t) :
    Turns s (ended ls) t := by
  induction ls generalizing s with
  | nil =>
      cases h
      exact turns_nil _
  | cons line rest ih =>
      obtain ⟨u, hline, hrest⟩ := h
      have hfeed : Turns u ['\n'] u := turns_of_turn? rfl
      exact (Turns.append hline hfeed).append (ih hrest)

/-! ## Methods -/

/-- The names in a method can stand anywhere in code. -/
structure TameMethod (f : Method) : Prop where
  name : Tame f.name
  arguments : ∀ a ∈ f.arguments, Tame a.name
  url : ∀ p ∈ f.call.url, TamePiece p
  query : ∀ a ∈ f.call.query, Tame a.name
  body : ∀ a ∈ f.call.body, Tame a.name

theorem reads_typeName (type : Primitive) (s : List Char) : Reads s (typeName type) s := by
  cases type with
  | string => exact reads_of_tame (by decide) s
  | number => exact reads_of_tame (by decide) s
  | boolean => exact reads_of_tame (by decide) s

theorem reads_parameter {dialect : Dialect} {a : Argument} (h : Tame a.name) (s : List Char) :
    Reads s (parameter dialect a) s := by
  have hcolon : Reads s ": " s := reads_of_turn? rfl
  have hequals : Reads s " = " s := reads_of_turn? rfl
  have hplain := reads_of_tame h s
  have htyped := (hplain.append hcolon).append (reads_typeName a.type s)
  unfold parameter
  cases a.default with
  | none =>
      cases dialect with
      | plain => exact hplain
      | typed => exact htyped
  | some value =>
      have hvalue := reads_literal value s
      cases dialect with
      | plain => exact (hplain.append hequals).append hvalue
      | typed => exact (htyped.append hequals).append hvalue

theorem reads_join {s : List Char} {separator : String} (hseparator : Reads s separator s)
    {texts : List String} (h : ∀ text ∈ texts, Reads s text s) :
    Reads s (Text.join separator texts) s := by
  fun_induction Text.join separator texts with
  | case1 => exact turns_nil s
  | case2 text => exact h text List.mem_cons_self
  | case3 text rest _ ih =>
      rw [List.forall_mem_cons] at h
      exact (h.1.append hseparator).append (ih h.2)

theorem reads_parameters {dialect : Dialect} {list : List Argument}
    (h : ∀ a ∈ list, Tame a.name) (s : List Char) : Reads s (parameters dialect list) s := by
  have hcomma : Reads s ", " s := reads_of_turn? rfl
  exact reads_join hcomma (List.forall_mem_map.mpr fun a ha => reads_parameter (h a ha) s)

theorem readsLines_bag {key : String} {list : List Argument} (hkey : Tame key)
    (h : ∀ a ∈ list, Tame a.name) (s : List Char) : ReadsLines s (bag key list) s := by
  unfold bag
  split
  · rfl
  · have hopen : Reads s ": \x7b" ('\x7b' :: s) := reads_of_turn? rfl
    have hclose : Reads ('\x7b' :: s) "\x7d," s := reads_of_turn? rfl
    have hlines : ReadsLines ('\x7b' :: s)
        (list.map fun a => Text.asciiLiteral a.wireName ++ ": " ++ a.name ++ ",")
        ('\x7b' :: s) := by
      refine readsLines_of_forall fun line hline => ?_
      obtain ⟨a, ha, rfl⟩ := List.mem_map.mp hline
      have hcolon : Reads ('\x7b' :: s) ": " ('\x7b' :: s) := reads_of_turn? rfl
      have hcomma : Reads ('\x7b' :: s) "," ('\x7b' :: s) := reads_of_turn? rfl
      exact (((reads_asciiLiteral a.wireName _).append hcolon).append
        (reads_of_tame (h a ha) _)).append hcomma
    exact readsLines_block ((reads_of_tame hkey s).append hopen) (hlines.indent 1) hclose

theorem readsLines_call {f : Method} (h : TameMethod f) (s : List Char) :
    ReadsLines s (call f.call) s := by
  have hopen : Reads s "return axios(\x7b" ('\x7b' :: '(' :: s) := reads_of_turn? rfl
  have hclose : Reads ('\x7b' :: '(' :: s) "\x7d);" s := reads_of_turn? rfl
  -- inside the request a brace and a parenthesis are open
  generalize '\x7b' :: '(' :: s = t at hopen hclose
  have hcomma : Reads t "," t := reads_of_turn? rfl
  have hmethod : Reads t
      ("method: " ++ Text.asciiLiteral (Text.lowercase f.call.method) ++ ",") t :=
    ((reads_of_turn? rfl).append (reads_asciiLiteral _ t)).append hcomma
  have hurl : Reads t ("url: " ++ url f.call.url ++ ",") t :=
    ((reads_of_turn? rfl).append (reads_url h.url t)).append hcomma
  have hbags : ReadsLines t (bag "params" f.call.query ++ bag "data" f.call.body) t :=
    (readsLines_bag (by decide) h.query t).append (readsLines_bag (by decide) h.body t)
  have hinner : ReadsLines t
      (("method: " ++ Text.asciiLiteral (Text.lowercase f.call.method) ++ ",") ::
        ("url: " ++ url f.call.url ++ ",") ::
          (bag "params" f.call.query ++ bag "data" f.call.body)) t :=
    ⟨t, hmethod, t, hurl, hbags⟩
  exact readsLines_block hopen (hinner.map fun line => ⟨_, reads_indentation, rfl⟩) hclose

theorem readsLines_method {dialect : Dialect} {f : Method} (h : TameMethod f) (s : List Char) :
    ReadsLines s (method dialect f) s := by
  have hasync : Reads s "async " s := reads_of_turn? rfl
  have hopen : Reads s "(" ('(' :: s) := reads_of_turn? rfl
  have hturn : Reads ('(' :: s) ") \x7b" ('\x7b' :: s) := reads_of_turn? rfl
  have hclose : Reads ('\x7b' :: s) "\x7d" s := reads_of_turn? rfl
  have hfirst : Reads s ("async " ++ f.name ++ "(" ++ parameters dialect f.arguments ++ ") \x7b")
      ('\x7b' :: s) :=
    (((hasync.append (reads_of_tame h.name s)).append hopen).append
      (reads_parameters h.arguments _)).append hturn
  exact readsLines_block hfirst ((readsLines_call h _).indent 1) hclose

/-! ## Classes -/

/-- The names in a class can stand anywhere in code. -/
structure TameClass (c : ClassDecl) : Prop where
  name : Tame c.name
  arguments : ∀ a ∈ c.constructor.arguments, Tame a.name
  parent : ∀ name, c.constructor.parentClass = some name → Tame name
  accessors : ∀ a ∈ c.accessors, Tame a.name ∧ Tame a.className
  methods : ∀ f ∈ c.methods, TameMethod f

theorem readsLines_accessor {dialect : Dialect} {a : Accessor} (hname : Tame a.name)
    (hclass : Tame a.className) (s : List Char) : ReadsLines s (accessor dialect a) s := by
  have hget : Reads s "get " s := reads_of_turn? rfl
  have hparens : Reads s "()" s := reads_of_turn? rfl
  have hopen : Reads s " \x7b" ('\x7b' :: s) := reads_of_turn? rfl
  have hnew : Reads ('\x7b' :: s) "return new " ('\x7b' :: s) := reads_of_turn? rfl
  have hthis : Reads ('\x7b' :: s) "(this);" ('\x7b' :: s) := reads_of_turn? rfl
  have hclose : Reads ('\x7b' :: s) "\x7d" s := reads_of_turn? rfl
  have hname' := (hget.append (reads_of_tame hname s)).append hparens
  have hinner := (((reads_indentation _).append hnew).append (reads_of_tame hclass _)).append hthis
  cases dialect with
  | plain =>
      have hresult : Reads s "" s := turns_nil s
      exact ⟨_, (hname'.append hresult).append hopen, _, hinner, _, hclose, rfl⟩
  | typed =>
      have hresult : Reads s (": " ++ a.className) s :=
        (reads_of_turn? rfl).append (reads_of_tame hclass s)
      exact ⟨_, (hname'.append hresult).append hopen, _, hinner, _, hclose, rfl⟩

theorem readsLines_constructor {dialect : Dialect} {c : Constructor} {ls : List String}
    (harguments : ∀ a ∈ c.arguments, Tame a.name)
    (hparent : ∀ name, c.parentClass = some name → Tame name)
    (h : constructor dialect c = .ok ls) (s : List Char) : ReadsLines s ls s := by
  have hopen : Reads s "constructor(" ('(' :: s) := reads_of_turn? rfl
  have hturn : Reads ('(' :: s) ") \x7b" ('\x7b' :: s) := reads_of_turn? rfl
  have hclose : Reads ('\x7b' :: s) "\x7d" s := reads_of_turn? rfl
  unfold constructor at h
  cases hc : c.parentClass with
  | some parent =>
      simp only [hc] at h
      cases h
      have hinner : ReadsLines ('\x7b' :: s) ["this._super = _super;"] ('\x7b' :: s) :=
        ⟨_, reads_of_turn? rfl, rfl⟩
      cases dialect with
      | plain =>
          have hdeclared : Reads ('(' :: s) "_super" ('(' :: s) := reads_of_turn? rfl
          exact readsLines_block ((hopen.append hdeclared).append hturn) (hinner.indent 1) hclose
      | typed =>
          have hdeclared : Reads ('(' :: s) ("_super: " ++ parent) ('(' :: s) :=
            (reads_of_turn? rfl).append (reads_of_tame (hparent parent hc) _)
          exact readsLines_block ((hopen.append hdeclared).append hturn) (hinner.indent 1) hclose
  | none =>
      simp only [hc] at h
      cases hlist : c.arguments with
      | nil => simp [hlist] at h
      | cons first rest =>
          simp only [hlist] at h harguments
          cases h
          have hname := harguments first List.mem_cons_self
          have hassign : Reads ('\x7b' :: s) ("this._url = " ++ first.name ++ ";") ('\x7b' :: s) :=
            ((reads_of_turn? rfl).append (reads_of_tame hname _)).append (reads_of_turn? rfl)
          have hinner : ReadsLines ('\x7b' :: s) ["this._url = " ++ first.name ++ ";"]
              ('\x7b' :: s) := ⟨_, hassign, rfl⟩
          exact readsLines_block ((hopen.append (reads_parameters harguments _)).append hturn)
            (hinner.indent 1) hclose

theorem readsLines_fields {dialect : Dialect} {c : Constructor}
    (hparent : ∀ name, c.parentClass = some name → Tame name) (s : List Char) :
    ∀ group ∈ fields dialect c, ReadsLines s group s := by
  unfold fields
  cases dialect with
  | plain => simp
  | typed =>
      cases hc : c.parentClass with
      | none =>
          simp only [List.forall_mem_singleton]
          exact ⟨s, reads_of_turn? rfl, rfl⟩
      | some parent =>
          simp only [List.forall_mem_singleton]
          exact ⟨s, ((reads_of_turn? rfl).append (reads_of_tame (hparent parent hc) s)).append
            (reads_of_turn? rfl), rfl⟩

theorem readsLines_classLines {dialect : Dialect} {c : ClassDecl} {ls : List String}
    (h : TameClass c) (hls : classLines dialect c = .ok ls) (s : List Char) :
    ReadsLines s ls s := by
  obtain ⟨built, hbuilt, rfl⟩ := exceptMap_eq_ok_iff.mp hls
  have hopen : Reads s " \x7b" ('\x7b' :: s) := reads_of_turn? rfl
  have hclose : Reads ('\x7b' :: s) "\x7d" s := reads_of_turn? rfl
  have hkind : Reads s (if c.isRoot then "export class " else "class ") s := by
    split
    · exact reads_of_turn? rfl
    · exact reads_of_turn? rfl
  have hmembers : ∀ group ∈ fields dialect c.constructor ++ [built] ++
      c.accessors.map (accessor dialect) ++ c.methods.map (method dialect),
      ReadsLines ('\x7b' :: s) group ('\x7b' :: s) := by
    simp only [List.forall_mem_append, List.forall_mem_singleton, List.forall_mem_map]
    exact ⟨⟨⟨readsLines_fields h.parent _, readsLines_constructor h.arguments h.parent hbuilt _⟩,
      fun a ha => readsLines_accessor (h.accessors a ha).1 (h.accessors a ha).2 _⟩,
      fun f hf => readsLines_method (h.methods f hf) _⟩
  have hinner := readsLines_spaced (List.forall_mem_map.mpr fun group hgroup =>
    (hmembers group hgroup).indent 1)
  exact readsLines_block ((hkind.append (reads_of_tame h.name s)).append hopen) hinner hclose

theorem classesLines_cons_eq_ok_iff {dialect : Dialect} {c : ClassDecl} {rest : List ClassDecl}
    {ls : List String} :
    classesLines dialect (c :: rest) = .ok ls ↔ ∃ own others, classLines dialect c = .ok own ∧
      classesLines dialect rest = .ok others ∧ ls = "" :: own ++ others := by
  rw [classesLines, exceptBind_eq_ok_iff]
  constructor
  · rintro ⟨own, hown, h⟩
    obtain ⟨others, hothers, heq⟩ := exceptBind_eq_ok_iff.mp h
    cases heq
    exact ⟨own, others, hown, hothers, rfl⟩
  · rintro ⟨own, others, hown, hothers, rfl⟩
    exact ⟨own, hown, exceptBind_eq_ok_iff.mpr ⟨others, hothers, rfl⟩⟩

theorem readsLines_classesLines {dialect : Dialect} {list : List ClassDecl} {ls : List String}
    (h : ∀ c ∈ list, TameClass c) (hls : classesLines dialect list = .ok ls) (s : List Char) :
    ReadsLines s ls s := by
  induction list generalizing ls with
  | nil =>
      cases hls
      rfl
  | cons c rest ih =>
      rw [List.forall_mem_cons] at h
      obtain ⟨own, others, hown, hothers, rfl⟩ := classesLines_cons_eq_ok_iff.mp hls
      exact ⟨s, turns_nil s, (readsLines_classLines h.1 hown s).append (ih h.2 hothers)⟩

/-! ## Sources -/

/-- A text without line feeds is one line. -/
theorem lines_eq_singleton {text : String} (h : '\n' ∉ text.toList) :
    Text.lines text = [text] := by
  have hsplit : ∀ {cs : List Char}, '\n' ∉ cs → Text.splitOn '\n' cs = [cs] := by
    intro cs hcs
    induction cs with
    | nil => rfl
    | cons c cs ih =>
        rw [List.mem_cons, not_or] at hcs
        rw [Text.splitOn, if_neg (Ne.symm hcs.1), ih hcs.2]
  rw [Text.lines, hsplit h, List.map_singleton, String.ofList_toList]

theorem readsLines_imports (s : List Char) : ReadsLines s imports s := by
  -- evaluation does not go through literals, so the quoted name is cut out first
  have himport : "import axios from \"axios\";" =
      "import axios from " ++ Text.asciiLiteral "axios" ++ ";" := by decide
  refine ⟨s, ?_, rfl⟩
  rw [himport]
  exact ((reads_of_turn? rfl).append (reads_asciiLiteral _ s)).append (reads_of_turn? rfl)

/-- The lines above the classes are read through if the comment stays on its line. -/
theorem turns_header {comment : String} (h : '\n' ∉ comment.toList) (s : List Char) :
    Turns s (ended (header comment)) s := by
  have himports : Turns s (ended imports) s := turns_ended (readsLines_imports s)
  unfold header headerLines
  split
  · exact himports
  · have hline : ("//" ++ " " ++ comment).toList = '/' :: '/' :: ' ' :: comment.toList := by
      rw [String.toList_append]
      rfl
    have hspace : '\n' ∉ ' ' :: comment.toList := by
      rw [List.mem_cons, not_or]
      exact ⟨by decide, h⟩
    -- a second line would follow the slashes without any of its own
    have hone : '\n' ∉ ("//" ++ " " ++ comment).toList := by
      rw [hline, List.mem_cons, List.mem_cons, not_or, not_or]
      exact ⟨by decide, by decide, hspace⟩
    have hempty : Turns s ['\n'] s := turns_of_turn? rfl
    rw [lines_eq_singleton hone, ended, List.flatMap_append, List.flatMap_singleton, hline,
      List.flatMap_cons]
    exact (turns_comment hspace s).append (hempty.append himports)

/-- The source of a module with tame names is read through from beginning to end. -/
theorem turns_source {dialect : Dialect} {m : Module} {code : String}
    (h : ∀ c ∈ m.classes, TameClass c) (hcomment : '\n' ∉ m.comment.toList)
    (hcode : source dialect m = .ok code) : Turns [] code.toList [] := by
  obtain ⟨ls, hls, rfl⟩ := exceptMap_eq_ok_iff.mp hcode
  -- the last line feed belongs to a line, since there is one in any case
  have hne : header m.comment ++ ls ≠ [] := by
    unfold header headerLines imports
    split
    · simp
    · simp
  rw [toList_unlines hne, ended, List.flatMap_append]
  exact (turns_header hcomment []).append (turns_ended (readsLines_classesLines h hls []))

/-- Every line stands somewhere in the text. -/
theorem isInfix_ended {ls : List String} {line : String} (h : line ∈ ls) :
    line.toList <:+: ended ls := by
  obtain ⟨before, after, rfl⟩ := List.append_of_mem h
  refine ⟨ended before, '\n' :: ended after, ?_⟩
  rw [ended, ended, ended, List.flatMap_append, List.flatMap_cons]
  simp

/-- The source of a module with a class says so. -/
theorem class_isInfix_source {dialect : Dialect} {m : Module} {code : String}
    (h : m.classes ≠ []) (hcode : source dialect m = .ok code) :
    "class ".toList <:+: code.toList := by
  obtain ⟨ls, hls, rfl⟩ := exceptMap_eq_ok_iff.mp hcode
  obtain ⟨c, rest, hclasses⟩ := List.exists_cons_of_ne_nil h
  rw [hclasses] at hls
  obtain ⟨own, others, hown, -, rfl⟩ := classesLines_cons_eq_ok_iff.mp hls
  obtain ⟨built, -, rfl⟩ := exceptMap_eq_ok_iff.mp hown
  -- the first line of the first class is enough
  have hkind : "class ".toList <:+: (if c.isRoot then "export class " else "class ").toList := by
    split
    · exact ⟨"export ".toList, [], by decide⟩
    · exact List.infix_refl _
  have hline : "class ".toList <:+:
      ((if c.isRoot then "export class " else "class ") ++ c.name ++ " \x7b").toList := by
    rw [String.append_assoc, String.toList_append]
    exact hkind.trans (List.prefix_append _ _).isInfix
  rw [toList_unlines (by simp)]
  refine hline.trans (isInfix_ended ?_)
  simp

end Script
end Source
end ClientForge
