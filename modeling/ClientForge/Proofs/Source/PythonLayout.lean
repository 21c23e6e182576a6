import ClientForge.Proofs.Pipeline
import ClientForge.Proofs.Source.Decorator
import ClientForge.Proofs.Source.PythonLine
/-!
# The layout of Python sources

Empty lines are put between statements by how these begin, and blank lines are dropped, so the
layout would go wrong if a text of the document could begin a line.  No statement has more than one line
(`oneLine_of_mem_classStatements`), and each begins in a way of its own kind.

`LaysOut` says what becomes of a run of statements whatever follows it.  Such runs can be put
together: functions to accessors and methods, these to a class, and classes to a source
(`exists_lines_source`).
-/

namespace ClientForge
namespace Source
namespace PythonText

open Text Assembly

/-! ## Gaps -/

/-- The first line of a class. -/
def classLine (c : ClassDecl) : String :=
  "class " ++ c.name ++ ":"

/-- Whether a function below a line is set off from it by an empty line. -/
def setsOff (above : String) : Bool :=
  !(startsWith "@" (trimStart above.toList) || startsWith "class " (trimStart above.toList))

/-- A statement of a function body, by how it begins. -/
def Plain (statement : String) : Prop :=
  "return ".toList <+: statement.toList ∨ "self._".toList <+: statement.toList

theorem plain_return (expression : String) : Plain ("return " ++ expression) := by
  rw [Plain, String.toList_append]
  exact Or.inl (List.prefix_append _ _)

theorem toList_classLine (c : ClassDecl) :
    (classLine c).toList = "class ".toList ++ (c.name ++ ":").toList := by
  rw [classLine, String.append_assoc, String.toList_append]

section Statement

variable {statement : String} (h : Plain statement)

include h

/-- What holds of both beginnings, whatever follows, holds of a statement. -/
theorem Plain.of_beginnings {P : List Char → Prop} (hreturn : ∀ cs, P ("return ".toList ++ cs))
    (hself : ∀ cs, P ("self._".toList ++ cs)) : P statement.toList := by
  rcases h with ⟨cs, hcs⟩ | ⟨cs, hcs⟩
  · rw [← hcs]
    exact hreturn cs
  · rw [← hcs]
    exact hself cs

theorem trimStart_bodyLine : trimStart (bodyLine statement).toList = statement.toList := by
  rw [bodyLine, String.toList_append]
  exact h.of_beginnings (P := fun cs => trimStart ("        ".toList ++ cs) = cs)
    (fun _ => rfl) (fun _ => rfl)

theorem setsOff_bodyLine : setsOff (bodyLine statement) = true := by
  rw [setsOff, trimStart_bodyLine h]
  exact h.of_beginnings (P := fun cs => (!(startsWith "@" cs || startsWith "class " cs)) = true)
    (fun _ => rfl) (fun _ => rfl)

theorem gapBefore_bodyLine (above : String) : gapBefore above (bodyLine statement) = [] := by
  have hclass : startsWith "class " (bodyLine statement).toList = false := by
    rw [bodyLine, String.toList_append]
    rfl
  have hstart :
      (startsWith "def " statement.toList || startsWith "@" statement.toList) = false :=
    h.of_beginnings (P := fun cs => (startsWith "def " cs || startsWith "@" cs) = false)
      (fun _ => rfl) (fun _ => rfl)
  rw [gapBefore, trimStart_bodyLine h, hclass, hstart]
  rfl

theorem isBlankText_bodyLine : isBlankText (bodyLine statement) = false := by
  rw [isBlankText, bodyLine, String.toList_append]
  exact h.of_beginnings (P := fun cs => ("        ".toList ++ cs).all isBlank = false)
    (fun _ => rfl) (fun _ => rfl)

end Statement

theorem setsOff_classLine (c : ClassDecl) : setsOff (classLine c) = false := by
  rw [setsOff, toList_classLine]
  rfl

theorem setsOff_decorator : setsOff decorator = false := by
  decide

theorem gapBefore_classLine (c : ClassDecl) (above : String) :
    gapBefore above (classLine c) = ["", ""] := by
  have hclass : startsWith "class " (classLine c).toList = true := by
    rw [toList_classLine]
    exact List.isPrefixOf_iff_prefix.mpr (List.prefix_append _ _)
  rw [gapBefore, hclass, if_pos rfl]

/-- A function is set off unless the line above belongs to it or opens the class. -/
theorem gapBefore_defLine (name parameters result above : String) :
    gapBefore above (defLine name parameters result) =
      if setsOff above then [""] else [] := by
  rw [gapBefore, toList_defLine, setsOff]
  rfl

theorem gapBefore_decorator (above : String) :
    gapBefore above decorator = if setsOff above then [""] else [] := rfl

theorem isBlankText_classLine (c : ClassDecl) : isBlankText (classLine c) = false := by
  rw [isBlankText, toList_classLine]
  rfl

theorem isBlankText_defLine (name parameters result : String) :
    isBlankText (defLine name parameters result) = false := by
  rw [isBlankText, toList_defLine]
  rfl

theorem layOut_cons {line : String} (h : isBlankText line = false) (above : String)
    (rest : List String) :
    layOut above (line :: rest) = gapBefore above line ++ line :: layOut line rest := by
  rw [layOut, h]
  rfl

/-! ## The lines of a class -/

/-- The line that opens a function. -/
def Opens (name line : String) : Prop :=
  ∃ rest, line = "    def " ++ name ++ "(" ++ rest ++ ":"

/-- A line of a function body: eight spaces and no further blank. -/
def InBody (line : String) : Prop :=
  ∃ c cs, line.toList = List.replicate 8 ' ' ++ c :: cs ∧ isBlank c = false

/-- A function of one statement. -/
def FunctionLines (name : String) (ls : List String) : Prop :=
  ∃ opening body, Opens name opening ∧ InBody body ∧ ls = [opening, body]

/-- An accessor below an empty line. -/
def AccessorLines (a : Accessor) (ls : List String) : Prop :=
  ∃ function, FunctionLines a.name function ∧ ls = "" :: "    @property" :: function

/-- A method below an empty line. -/
def MethodLines (f : Method) (ls : List String) : Prop :=
  ∃ function, FunctionLines f.name function ∧ ls = "" :: function

/-- A class below two empty lines. -/
def ClassLines (c : ClassDecl) (ls : List String) : Prop :=
  ∃ built accessors called, FunctionLines "__init__" built ∧
    List.Forall₂ AccessorLines c.accessors accessors ∧
    List.Forall₂ MethodLines c.methods called ∧
    ls = "" :: "" :: ("class " ++ c.name ++ ":") :: built ++ accessors.flatten ++ called.flatten

theorem inBody_bodyLine {statement : String} (h : Plain statement) :
    InBody (bodyLine statement) := by
  rw [InBody, bodyLine, String.toList_append]
  exact h.of_beginnings
    (P := fun cs => ∃ d ds, "        ".toList ++ cs = List.replicate 8 ' ' ++ d :: ds ∧
      isBlank d = false)
    (fun _ => ⟨'r', _, rfl, by decide⟩) (fun _ => ⟨'s', _, rfl, by decide⟩)

theorem functionLines_of_plain {statement : String} (h : Plain statement)
    (name parameters result : String) :
    FunctionLines name [defLine name parameters result, bodyLine statement] := by
  refine ⟨_, _, ⟨parameters ++ ") -> " ++ result, ?_⟩, inBody_bodyLine h, rfl⟩
  unfold defLine
  simp only [String.append_assoc]

/-! ## Runs of statements -/

/-- Below a line, statements are laid out as lines whatever follows them.  What follows is laid out
below the last line. -/
def LaysOut (above : String) (statements ls : List String) (last : String) : Prop :=
  ∀ rest, layOut above (statements ++ rest) = ls ++ layOut last rest

theorem LaysOut.append {above middle last : String} {first second ls ms : List String}
    (hls : LaysOut above first ls middle) (hms : LaysOut middle second ms last) :
    LaysOut above (first ++ second) (ls ++ ms) last := by
  intro rest
  rw [List.append_assoc, hls, hms, List.append_assoc]

theorem laysOut_line {line : String} (h : isBlankText line = false) (above : String) :
    LaysOut above [line] (gapBefore above line ++ [line]) line := by
  intro rest
  rw [List.singleton_append, layOut_cons h, List.append_assoc, List.singleton_append]

/-- Statements that are laid out in some form below every line of a kind, and end in such a line. -/
def Settles (P : String → Prop) (R : List String → Prop) (statements : List String) : Prop :=
  ∀ above, P above → ∃ ls last, LaysOut above statements ls last ∧ P last ∧ R ls

/-- Groups in a row, each in its own form. -/
theorem settles_flatten {α : Type} {P : String → Prop} {R : α → List String → Prop}
    {list : List α} {groups : List (List String)}
    (h : List.Forall₂ (fun a group => Settles P (R a) group) list groups) :
    Settles P (fun ls => ∃ blocks, List.Forall₂ R list blocks ∧ ls = blocks.flatten)
      groups.flatten := by
  induction h with
  | nil => exact fun above habove => ⟨[], above, fun _ => rfl, habove, [], List.Forall₂.nil, rfl⟩
  | cons hgroup _ ih =>
      intro above habove
      obtain ⟨ls, middle, hls, hmiddle, hown⟩ := hgroup above habove
      obtain ⟨ms, last, hms, hlast, blocks, hblocks, rfl⟩ := ih middle hmiddle
      exact ⟨_, last, hls.append hms, hlast, ls :: blocks, List.Forall₂.cons hown hblocks, rfl⟩

theorem laysOut_function {statement : String} (h : Plain statement)
    (name parameters result above : String) :
    LaysOut above [defLine name parameters result, bodyLine statement]
      ((if setsOff above then [""] else []) ++
        [defLine name parameters result, bodyLine statement]) (bodyLine statement) := by
  have hopening := laysOut_line (isBlankText_defLine name parameters result) above
  have hbody := laysOut_line (isBlankText_bodyLine h) (defLine name parameters result)
  rw [gapBefore_defLine] at hopening
  rw [gapBefore_bodyLine h] at hbody
  have hboth := hopening.append hbody
  rwa [List.append_assoc] at hboth

theorem settles_accessor (a : Accessor) :
    Settles (setsOff · = true) (AccessorLines a) (accessor a) := by
  intro above habove
  have hplain : Plain ("return " ++ a.className ++ "(self)") := by
    rw [String.append_assoc]
    exact plain_return _
  have hblank : isBlankText decorator = false := by decide
  have hdecorator := laysOut_line hblank above
  have hfunction := laysOut_function hplain a.name "self" a.className decorator
  rw [gapBefore_decorator, habove] at hdecorator
  rw [setsOff_decorator] at hfunction
  exact ⟨_, _, hdecorator.append hfunction, setsOff_bodyLine hplain, _,
    functionLines_of_plain hplain a.name "self" a.className, rfl⟩

theorem settles_method {f : Method} {group : List String} (h : method f = .ok group) :
    Settles (setsOff · = true) (MethodLines f) group := by
  intro above habove
  obtain ⟨request, -, rfl⟩ := exceptMap_eq_ok_iff.mp h
  have hplain := plain_return request
  have hfunction := laysOut_function hplain f.name (parameterList (signature f.arguments))
    "requests.Response" above
  rw [habove] at hfunction
  exact ⟨_, _, hfunction, setsOff_bodyLine hplain, _, functionLines_of_plain hplain _ _ _, rfl⟩

/-- A class is laid out in one form wherever it stands. -/
theorem settles_class {c : ClassDecl} {group : List String} (h : classStatements c = .ok group) :
    Settles (fun _ => True) (ClassLines c) group := by
  obtain ⟨built, hbuilt, h⟩ := exceptBind_eq_ok_iff.mp h
  obtain ⟨called, hcalled, h⟩ := exceptBind_eq_ok_iff.mp h
  cases h
  obtain ⟨parameters, statement, hstatement, rfl⟩ := exists_constructor_eq hbuilt
  obtain ⟨groups, hgroups, rfl⟩ := methods_eq_ok_iff.mp hcalled
  have hplain : Plain statement := Or.inr hstatement
  have haccessors : Settles (setsOff · = true)
      (fun ls => ∃ blocks, List.Forall₂ AccessorLines c.accessors blocks ∧ ls = blocks.flatten)
      (c.accessors.flatMap accessor) :=
    settles_flatten (List.forall₂_map_right_iff.mpr
      (List.forall₂_same.mpr fun a _ => settles_accessor a))
  have hmethods := settles_flatten (hgroups.imp fun _ _ => settles_method)
  intro above _
  -- the constructor stands right below the first line, all other functions are set off
  have hclass := laysOut_line (isBlankText_classLine c) above
  have hfunction := laysOut_function hplain "__init__" parameters "None" (classLine c)
  rw [gapBefore_classLine] at hclass
  rw [setsOff_classLine] at hfunction
  obtain ⟨ls, middle, hls, hmiddle, accessors, haccessors, rfl⟩ :=
    haccessors _ (setsOff_bodyLine hplain)
  obtain ⟨ms, last, hms, -, methods, hmethods, rfl⟩ := hmethods middle hmiddle
  exact ⟨_, last, ((hclass.append hfunction).append hls).append hms, trivial, _, accessors, methods,
    functionLines_of_plain hplain "__init__" parameters "None", haccessors, hmethods, rfl⟩

/-! ## Sources -/

/-- A text ends in one line feed and no more. -/
def EndsOnce (text : String) : Prop :=
  ∃ front c, text.toList = front ++ [c, '\n'] ∧ c ≠ '\n'

theorem eq_empty_of_mem_gapBefore {above line gap : String} (h : gap ∈ gapBefore above line) :
    gap = "" := by
  simp only [gapBefore] at h
  split at h
  · simpa using h
  · split at h
    · simpa using h
    · cases h

/-- Nothing is added but empty lines. -/
theorem eq_or_mem_of_mem_layOut {above line : String} {statements : List String}
    (h : line ∈ layOut above statements) : line = "" ∨ line ∈ statements := by
  induction statements generalizing above with
  | nil => cases h
  | cons statement rest ih =>
      rw [layOut] at h
      split at h
      · exact (ih h).imp_right (List.mem_cons_of_mem _)
      · rcases List.mem_append.mp h with h | h
        · exact Or.inl (eq_empty_of_mem_gapBefore h)
        · rcases List.mem_cons.mp h with rfl | h
          · exact Or.inr List.mem_cons_self
          · exact (ih h).imp_right (List.mem_cons_of_mem _)

/-- Empty lines stand above other lines, never at the end. -/
theorem isBlankText_of_getLast?_layOut {above line : String} {statements : List String}
    (h : (layOut above statements).getLast? = some line) : isBlankText line = false := by
  induction statements generalizing above with
  | nil => cases h
  | cons statement rest ih =>
      rw [layOut] at h
      split at h
      · exact ih h
      · rename_i hblank
        rw [List.getLast?_append, List.getLast?_cons, Option.some_or, Option.some.injEq] at h
        cases hlast : (layOut statement rest).getLast? with
        | none =>
            rw [hlast] at h
            cases h
            exact Bool.eq_false_iff.mpr hblank
        | some last =>
            rw [hlast] at h
            cases h
            exact ih hlast

theorem ended_cons (line : String) (rest : List String) :
    Script.ended (line :: rest) = line.toList ++ '\n' :: Script.ended rest := by
  rw [Script.ended, List.flatMap_cons, List.append_assoc]
  rfl

/-- Lines that are put together are found again, and after the last line feed nothing is left. -/
theorem lines_unlines {ls : List String} (hne : ls ≠ []) (h : ∀ line ∈ ls, OneLine line) :
    lines (unlines ls ++ "\n") = ls ++ [""] := by
  rw [lines, Script.toList_unlines hne, splitOn_eq]
  clear hne
  induction ls with
  | nil => rfl
  | cons line rest ih =>
      rw [List.forall_mem_cons] at h
      rw [ended_cons, List.splitOn_append_cons_self_of_not_mem h.1, List.map_cons, ih h.2,
        String.ofList_toList]
      rfl

theorem endsOnce_unlines {ls : List String} {last : String} (hlast : ls.getLast? = some last)
    (hne : last.toList ≠ []) (hone : OneLine last) : EndsOnce (unlines ls ++ "\n") := by
  obtain ⟨before, rfl⟩ := List.getLast?_eq_some_iff.mp hlast
  obtain ⟨front, c, hlist⟩ := (List.eq_nil_or_concat last.toList).resolve_left hne
  rw [List.concat_eq_append] at hlist
  refine ⟨Script.ended before ++ front, c, ?_, ?_⟩
  · rw [Script.toList_unlines (List.append_ne_nil_of_right_ne_nil _ (List.cons_ne_nil _ _)),
      Script.ended, List.flatMap_append, List.flatMap_singleton, hlist]
    simp [Script.ended]
  · rintro rfl
    exact hone (hlist ▸ List.mem_append_right _ List.mem_cons_self)

theorem isBlankText_of_getLast?_preamble {above line : String} {statements : List String}
    (h : (preamble ++ layOut above statements).getLast? = some line) :
    isBlankText line = false := by
  rw [List.getLast?_append] at h
  cases hlast : (layOut above statements).getLast? with
  | none =>
      rw [hlast, Option.none_or] at h
      cases h
      decide
  | some last =>
      rw [hlast, Option.some_or] at h
      cases h
      exact isBlankText_of_getLast?_layOut hlast

theorem oneLine_of_mem_preamble : ∀ line ∈ preamble, OneLine line := by
  unfold preamble OneLine
  simp

/-- The source of a module without a comment: the fixed lines, the classes, and one line feed at
the end. -/
theorem exists_lines_source {m : Module} {code : String} (hcomment : m.comment = "")
    (h : ∀ c ∈ m.classes, NamedClass OneLine c) (hcode : source m = .ok code) :
    ∃ blocks, List.Forall₂ ClassLines m.classes blocks ∧
      lines code = preamble ++ blocks.flatten ++ [""] ∧ EndsOnce code := by
  obtain ⟨statements, hstatements, rfl⟩ := exceptMap_eq_ok_iff.mp hcode
  obtain ⟨groups, hgroups, rfl⟩ := classesStatements_eq_ok_iff.mp hstatements
  have hone : ∀ line ∈ groups.flatten, OneLine line := by
    intro line hline
    obtain ⟨group, hgroup, hline⟩ := List.mem_flatten.mp hline
    obtain ⟨c, hc, hclass⟩ := exists_left_of_forall₂ hgroups hgroup
    exact oneLine_of_mem_classStatements (h c hc) hclass line hline
  -- no statement falls apart into several lines
  have hlines : groups.flatten.flatMap lines = groups.flatten := by
    rw [List.flatMap_congr fun line hline => Script.lines_eq_singleton (hone line hline)]
    exact List.flatMap_singleton' _
  have hheader : header m.comment = preamble := by
    rw [hcomment]
    rfl
  simp only [hlines, hheader]
  generalize preamble.getLast?.getD "" = above
  obtain ⟨ls, last, hls, -, blocks, hblocks, rfl⟩ :=
    settles_flatten (hgroups.imp fun _ _ => settles_class) above trivial
  have hlaid : layOut above groups.flatten = blocks.flatten := by
    have hrest := hls []
    rwa [List.append_nil, layOut, List.append_nil] at hrest
  have hall : ∀ line ∈ preamble ++ layOut above groups.flatten, OneLine line := by
    rw [List.forall_mem_append]
    refine ⟨oneLine_of_mem_preamble, fun line hline => ?_⟩
    rcases eq_or_mem_of_mem_layOut hline with rfl | hline
    · exact List.not_mem_nil
    · exact hone line hline
  have hne : preamble ++ layOut above groups.flatten ≠ [] :=
    List.append_ne_nil_of_left_ne_nil (List.cons_ne_nil _ _) _
  refine ⟨blocks, hblocks, ?_, ?_⟩
  · rw [lines_unlines hne hall, hlaid]
  · have hlast := List.getLast?_eq_some_getLast hne
    refine endsOnce_unlines hlast ?_ (hall _ (List.getLast_mem hne))
    intro hempty
    have hblank := isBlankText_of_getLast?_preamble hlast
    rw [isBlankText, hempty] at hblank
    cases hblank

end PythonText
end Source

namespace Pipeline

open Assembly Naming Source Text

theorem oneLine_identifier {style : Style} {name : String} (h : HasIdentifier name) :
    OneLine (style.identifier name) :=
  oneLine_of_forall (by decide) fun _ hc => isIdentifierChar_of_mem_identifier h hc

theorem oneLine_className {rootName : String} (h : OneLine rootName) (names : List String) :
    OneLine (className rootName names) := by
  intro hmem
  rcases mem_or_isWordChar_of_mem_className hmem with hroot | hword
  · exact h hroot
  · revert hword
    decide

/-- What is generated for Python without a comment is laid out in one way, class by class, whatever
stands in the texts of the document.  Only a class name may break a line. -/
theorem exists_lines_generate_python {document : Value} {config : Config} {name : Option String}
    {client : Client} {code : String} (hcomment : config.addGenerationComment = false)
    (hbind : (Schema.bindDocument document (askedName config name)).result = .ok client)
    (hname : '\n' ∉ client.className.toList)
    (h : (generate document config .python name).2 = .ok code) :
    ∃ m blocks, assemble .python config client = .ok m ∧
      List.Forall₂ PythonText.ClassLines m.classes blocks ∧
      lines code = PythonText.preamble ++ blocks.flatten ++ [""] ∧
      PythonText.EndsOnce code := by
  obtain ⟨bound, m, hbound, hassemble, hrender⟩ := generate_eq_ok_iff.mp h
  rw [hbind] at hbound
  cases hbound
  obtain ⟨root, members, -, hclient⟩ := Schema.bindDocument_eq_ok_iff.mp hbind
  have hm := assemble_eq_ok_iff.mp hassemble
  have hnames : ∀ c ∈ m.classes, NamedClass OneLine c :=
    namedClass_of_assembles hclient hm (fun _ => oneLine_identifier) (oneLine_className hname)
      (by decide)
  have hempty : m.comment = "" := by
    rw [hm.comment_eq, Config.comment, hcomment]
    rfl
  rw [render, hm.language_eq] at hrender
  obtain ⟨blocks, hblocks, hlines, hends⟩ :=
    PythonText.exists_lines_source hempty hnames hrender
  exact ⟨m, blocks, hassemble, hblocks, hlines, hends⟩

/-- Lines that look like classes, functions and decorators, wherever a document may have them. -/
def lineDocument : Value :=
  .map
    [(.str "$url", .str "http://a\nclass \"b'"),
     (.str "get", .map
       [(.str "$url", .str "$\x7b!super\x7d/\n    def '\"\"\"/<id>"),
        (.str "$params", .map
          [(.str "\n@\"a\\", .str "string|default:a\nclass '\\\\\""),
           (.str "b", .str "string")])]),
     (.str "~users", .map
       [(.str "$url", .str "$\x7b!super\x7d\n\n    @property"),
        (.str "post", .map [(.str "$url", .str "$\x7b!super\x7d/\nclass C:")])])]

theorem exists_lines_generate_python_lines : ∃ client code,
    (Schema.bindDocument lineDocument (askedName { addGenerationComment := false } none)).result =
        .ok client ∧
      '\n' ∉ client.className.toList ∧
      (generate lineDocument { addGenerationComment := false } .python none).2 = .ok code ∧
      ∃ m blocks, assemble .python { addGenerationComment := false } client = .ok m ∧
        List.Forall₂ PythonText.ClassLines m.classes blocks ∧
        lines code = PythonText.preamble ++ blocks.flatten ++ [""] ∧
        PythonText.EndsOnce code := by
  obtain ⟨client, hbind, hclient⟩ := exists_eq_ok_of_any
    (x := (Schema.bindDocument lineDocument
      (askedName { addGenerationComment := false } none)).result)
    (p := fun client => decide ('\n' ∉ client.className.toList) &&
      (generate lineDocument { addGenerationComment := false } .python none).2.toOption.any
        fun _ => true) (by decide +kernel)
  rw [Bool.and_eq_true] at hclient
  obtain ⟨code, hcode, -⟩ := exists_eq_ok_of_any hclient.2
  have hname := of_decide_eq_true hclient.1
  exact ⟨client, code, hbind, hname, hcode, exists_lines_generate_python rfl hbind hname hcode⟩

end Pipeline
end ClientForge
