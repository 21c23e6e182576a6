import ClientForge.Proofs.Pipeline
/-!
# The comment at the top

A source with a generation comment is the comment, an empty line, and the source without it
(`generate_eq_map`).  The command in the comment is copied as it is, so the comment is one line
exactly if the command has no line end in it: a command with a line feed puts what follows it into
the code (`generate_headed_iff`).
-/

namespace ClientForge
namespace Source

open Script (ended toList_unlines)

/-- The mark that a comment begins with. -/
def commentMark : Language → String
  | .javaScript => "//"
  | .typeScript => "//"
  | .python => "#"

/-! ## Lines above the classes -/

theorem ended_append (ls ms : List String) : ended (ls ++ ms) = ended ls ++ ended ms :=
  List.flatMap_append

/-- The lines of a text, put together again. -/
theorem ended_lines (s : String) : ended (Text.lines s) = s.toList ++ ['\n'] := by
  have hsplit : ∀ cs : List Char,
      (Text.splitOn '\n' cs).flatMap (fun piece => piece ++ ['\n']) = cs ++ ['\n'] := by
    intro cs
    induction cs with
    | nil => rfl
    | cons c cs ih =>
        by_cases hc : c = '\n'
        · rw [Text.splitOn, if_pos hc, List.flatMap_cons, ih, hc]
          rfl
        · rw [Text.splitOn, if_neg hc]
          cases hpieces : Text.splitOn '\n' cs with
          | nil => simp [hpieces] at ih
          | cons piece pieces =>
              rw [hpieces, List.flatMap_cons] at ih
              rw [List.flatMap_cons, List.cons_append, List.cons_append, ih]
              rfl
  rw [Text.lines, ended, List.flatMap_map]
  simpa using hsplit s.toList

theorem unlines_headerLines {mark comment : String} {fixed : List String} (hcomment : comment ≠ "")
    (hfixed : fixed ≠ []) (ls : List String) :
    Text.unlines (headerLines mark comment fixed ++ ls) ++ "\n" =
      mark ++ " " ++ comment ++ "\n\n" ++ (Text.unlines (fixed ++ ls) ++ "\n") := by
  apply String.toList_inj.mp
  have hplain : fixed ++ ls ≠ [] := by simp [hfixed]
  rw [headerLines, if_neg hcomment, toList_unlines (by simp), String.toList_append,
    toList_unlines hplain, List.append_assoc, ended_append, ended_lines]
  simp [ended]

theorem getLast?_headerLines (mark comment : String) {fixed : List String} (h : fixed ≠ []) :
    (headerLines mark comment fixed).getLast? = fixed.getLast? := by
  unfold headerLines
  split
  · rfl
  · rw [List.getLast?_append, List.getLast?_cons, List.getLast?_eq_some_getLast h]
    rfl

/-- A printed module with a comment. -/
theorem render_eq_map {m : Module} (h : m.comment ≠ "") :
    render m = (render { m with comment := "" }).map fun plain =>
      commentMark m.language ++ " " ++ m.comment ++ "\n\n" ++ plain := by
  obtain ⟨language, rootClass, comment, classes⟩ := m
  dsimp only at h
  -- what is printed below the fixed lines does not depend on what is above them
  have hscript : ∀ dialect, Script.source dialect ⟨language, rootClass, comment, classes⟩ =
      (Script.source dialect ⟨language, rootClass, "", classes⟩).map fun plain =>
        "//" ++ " " ++ comment ++ "\n\n" ++ plain := by
    intro dialect
    rw [Script.source, Script.source, exceptMap_exceptMap]
    congr 1
    funext ls
    exact unlines_headerLines h (List.cons_ne_nil _ _) ls
  cases language with
  | javaScript => exact hscript .plain
  | typeScript => exact hscript .typed
  | python =>
      have hpreamble : PythonText.preamble ≠ [] := List.cons_ne_nil _ _
      show PythonText.source _ = (PythonText.source _).map _
      rw [PythonText.source, PythonText.source, exceptMap_exceptMap]
      congr 1
      funext statements
      -- the last line above the classes decides on the empty lines that follow it
      simp only [PythonText.header, getLast?_headerLines _ _ hpreamble]
      exact unlines_headerLines h hpreamble _

end Source

namespace Pipeline

open Source

/-- The settings without a comment. -/
def uncommented (config : Config) : Config :=
  { config with addGenerationComment := false }

theorem comment_ne_empty {config : Config} (h : config.addGenerationComment = true) :
    config.comment ≠ "" := by
  rw [Config.comment, if_pos h]
  intro hempty
  have hlist := congrArg String.toList hempty
  rw [String.toList_append] at hlist
  exact absurd hlist (by simp)

/-- The comment as it is printed. -/
def commentText (language : Language) (config : Config) : String :=
  commentMark language ++ " " ++ config.comment

theorem assemble_uncommented (language : Language) (config : Config) (client : Client) :
    Assembly.assemble language (uncommented config) client =
      (Assembly.assemble language config client).map fun m => { m with comment := "" } := by
  rw [Assembly.assemble, Assembly.assemble, exceptMap_exceptMap]
  rfl

/-- What is generated with a comment, and whether anything is. -/
theorem generate_eq_map (document : Value) {config : Config} (language : Language)
    (name : Option String) (h : config.addGenerationComment = true) :
    (generate document config language name).2 =
      (generate document (uncommented config) language name).2.map fun plain =>
        commentText language config ++ "\n\n" ++ plain := by
  have hasked : askedName (uncommented config) name = askedName config name := rfl
  unfold generate
  simp only [hasked, assemble_uncommented]
  cases hbind : (Schema.bindDocument document (askedName config name)).result with
  | error failure => rfl
  | ok client =>
      dsimp only
      cases hassemble : Assembly.assemble language config client with
      | error failure => rfl
      | ok m =>
          have hm := Assembly.assemble_eq_ok_iff.mp hassemble
          have hcomment : m.comment ≠ "" := hm.comment_eq ▸ comment_ne_empty h
          simp only [Except.map, render_eq_map hcomment]
          cases render { m with comment := "" } with
          | error fault => rfl
          | ok plain =>
              simp only [commentText, hm.comment_eq, hm.language_eq]

/-! ## One line -/

/-- The characters that end a line, and a comment in it, in the sources of a language. -/
def lineEnds : Language → List Char
  | .javaScript => ['\n', '\r', '\u2028', '\u2029']
  | .typeScript => ['\n', '\r', '\u2028', '\u2029']
  | .python => ['\n', '\r']

/-- A comment that is one line, an empty line, and then the other text.  The line is one as far as
the given ends of lines go. -/
def Headed (language : Language) (ends : List Char) (code plain : String) : Prop :=
  ∃ line : String, (commentMark language).toList <+: line.toList ∧
    (∀ e ∈ ends, e ∉ line.toList) ∧ code = line ++ "\n\n" ++ plain

/-- The words of a comment are on one line. -/
theorem lineEnd_not_mem {language : Language} {e : Char} (h : e ∈ lineEnds language) :
    e ∉ (commentText language {}).toList := by
  have hall : (lineEnds language).all
      (fun e => !(commentText language {}).toList.contains e) = true := by
    cases language with
    | javaScript => decide
    | typeScript => decide
    | python => decide
  simpa using List.all_eq_true.mp hall e h

theorem mem_commentText_iff {language : Language} {config : Config} {e : Char}
    (hcomment : config.addGenerationComment = true) (he : e ∈ lineEnds language) :
    e ∈ (commentText language config).toList ↔ e ∈ config.generationCommand.toList := by
  have hfixed := lineEnd_not_mem he
  rw [commentText, String.toList_append, List.mem_append, not_or] at hfixed
  rw [commentText, String.toList_append, List.mem_append, mem_comment_iff hcomment hfixed.2]
  simp only [hfixed.1, false_or]

/-- The comment is one line exactly if the command has no line end. -/
theorem headed_commentText_iff {language : Language} {config : Config} {ends : List Char}
    (hcomment : config.addGenerationComment = true) (hends : ends ⊆ lineEnds language)
    (plain : String) :
    Headed language ends (commentText language config ++ "\n\n" ++ plain) plain ↔
      ∀ e ∈ ends, e ∉ config.generationCommand.toList := by
  have hmem : ∀ e ∈ ends, (e ∉ (commentText language config).toList ↔
      e ∉ config.generationCommand.toList) :=
    fun e he => not_congr (mem_commentText_iff hcomment (hends he))
  constructor
  · rintro ⟨line, -, hline, heq⟩
    -- the line is what stands before the empty line and the other text
    have hcomment : commentText language config = line := by
      have hlist := congrArg String.toList heq
      simp only [String.toList_append, List.append_cancel_right_eq] at hlist
      exact String.toList_inj.mp hlist
    exact fun e he => (hmem e he).mp (hcomment ▸ hline e he)
  · intro h
    refine ⟨commentText language config, ?_, fun e he => (hmem e he).mpr (h e he), rfl⟩
    rw [commentText, String.append_assoc, String.toList_append]
    exact List.prefix_append _ _

/-- What is generated with a comment is the comment, an empty line, and what is generated without
it; the comment is one line exactly if there is no line end in the command. -/
theorem generate_headed_iff {document : Value} {config : Config} {language : Language}
    {name : Option String} {code : String} (hcomment : config.addGenerationComment = true)
    (h : (generate document config language name).2 = .ok code) :
    ∃ plain, (generate document (uncommented config) language name).2 = .ok plain ∧
      code = commentText language config ++ "\n\n" ++ plain ∧
      ∀ ends, ends ⊆ lineEnds language →
        (Headed language ends code plain ↔ ∀ e ∈ ends, e ∉ config.generationCommand.toList) := by
  rw [generate_eq_map document language name hcomment] at h
  obtain ⟨plain, hplain, rfl⟩ := exceptMap_eq_ok_iff.mp h
  exact ⟨plain, hplain, rfl, fun ends hends => headed_commentText_iff hcomment hends plain⟩

/-- A client with one action. -/
def plainDocument : Value := .map [(.str "get", .null)]

def returnedConfig : Config := { generationCommand := "xsrc a\rb" }

/-- A carriage return in the command ends the line, though no line feed does. -/
theorem generate_headed_iff_returned : ∃ code plain,
    (generate plainDocument returnedConfig .python none).2 = .ok code ∧
      (generate plainDocument (uncommented returnedConfig) .python none).2 = .ok plain ∧
      Headed .python ['\n'] code plain ∧ ¬ Headed .python (lineEnds .python) code plain := by
  obtain ⟨code, hcode, -⟩ := exists_eq_ok_of_any
    (x := (generate plainDocument returnedConfig .python none).2) (p := fun _ => true)
    (by decide +kernel)
  obtain ⟨plain, hplain, -, hheaded⟩ := generate_headed_iff rfl hcode
  refine ⟨code, plain, hcode, hplain, ?_, ?_⟩
  · refine (hheaded ['\n'] (by simp [lineEnds])).mpr ?_
    exact List.forall_mem_singleton.mpr (by decide)
  · intro h
    have hreturn := (hheaded _ (List.Subset.refl _)).mp h '\r' (by decide)
    exact absurd hreturn (by decide)

def fedConfig : Config := { generationCommand := "xsrc a\nb" }

/-- A line feed in the command puts the rest of it into the code. -/
theorem exists_not_headed_fedConfig : ∃ code plain,
    (generate plainDocument fedConfig .javaScript none).2 = .ok code ∧
      (generate plainDocument (uncommented fedConfig) .javaScript none).2 = .ok plain ∧
      ¬ Headed .javaScript ['\n'] code plain := by
  obtain ⟨plain, hplain, -⟩ := exists_eq_ok_of_any
    (x := (generate plainDocument (uncommented fedConfig) .javaScript none).2)
    (p := fun _ => true) (by decide +kernel)
  have hcomment : fedConfig.addGenerationComment = true := rfl
  have hcode := generate_eq_map plainDocument .javaScript none hcomment
  rw [hplain] at hcode
  refine ⟨_, plain, hcode, hplain, ?_⟩
  rw [headed_commentText_iff hcomment (by simp [lineEnds])]
  intro h
  exact absurd (h '\n' (List.mem_singleton.mpr rfl)) (by decide)

end Pipeline
end ClientForge
