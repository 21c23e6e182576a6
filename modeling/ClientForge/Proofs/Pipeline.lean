import ClientForge.Pipeline
import ClientForge.Proofs.Source.Validity
/-!
# Compilations

A compilation answers exactly if its three stages do (`generate_eq_ok_iff`).  Then the sources for
JavaScript and TypeScript pass the output check, whatever the document says, as long as the comment
at the top does not spill over its line (`check_generate`).
-/

namespace ClientForge
namespace Pipeline

theorem generate_eq_ok_iff {document : Value} {config : Config} {language : Language}
    {name : Option String} {code : String} :
    (generate document config language name).2 = .ok code ↔ ∃ client m,
      (Schema.bindDocument document (askedName config name)).result = .ok client ∧
      Assembly.assemble language config client = .ok m ∧ Source.render m = .ok code := by
  unfold generate
  cases hbind : (Schema.bindDocument document (askedName config name)).result with
  | error failure => simp [hbind]
  | ok client =>
      cases hassemble : Assembly.assemble language config client with
      | error failure => simp [hbind, hassemble]
      | ok m =>
          cases hrender : Source.render m with
          | error fault => simp [hbind, hassemble, hrender]
          | ok text => simp [hbind, hassemble, hrender]

/-- What does not stand in the comment without a command comes from the command. -/
theorem mem_comment_iff {config : Config} {c : Char} (h : config.addGenerationComment = true)
    (hc : c ∉ ({} : Config).comment.toList) :
    c ∈ config.comment.toList ↔ c ∈ config.generationCommand.toList := by
  rw [Config.comment, if_pos rfl, if_pos rfl, String.toList_append, List.mem_append, not_or] at hc
  rw [Config.comment, if_pos h, String.toList_append, List.mem_append]
  simp only [hc.1, false_or]
  split
  · rename_i hempty
    rw [hempty]
    simp only [hc.2, false_iff]
    exact List.not_mem_nil
  · rfl

/-- The comment stays on one line if the command does. -/
theorem feed_not_mem_comment {config : Config} (h : '\n' ∉ config.generationCommand.toList) :
    '\n' ∉ config.comment.toList := by
  by_cases hcomment : config.addGenerationComment = true
  · rwa [mem_comment_iff hcomment (by decide)]
  · rw [Config.comment, if_neg hcomment]
    exact List.not_mem_nil

/-- What is generated for JavaScript or TypeScript passes the check before it is written. -/
theorem check_generate {document : Value} {config : Config} {language : Language}
    {name : Option String} {code : String}
    (hlanguage : language = .javaScript ∨ language = .typeScript)
    (hcommand : '\n' ∉ config.generationCommand.toList)
    (h : (generate document config language name).2 = .ok code) :
    Check.check language code = .ok () := by
  obtain ⟨client, m, hbind, hassemble, hrender⟩ := generate_eq_ok_iff.mp h
  obtain ⟨root, members, -, hclient⟩ := Schema.bindDocument_eq_ok_iff.mp hbind
  have hm := Assembly.assemble_eq_ok_iff.mp hassemble
  have hcomment : '\n' ∉ m.comment.toList := by
    rw [hm.comment_eq]
    exact feed_not_mem_comment hcommand
  have hbrackets : Check.Brackets.check code = .ok () := by
    -- both languages print the same source, each in its own dialect
    rw [Source.render, hm.language_eq] at hrender
    rcases hlanguage with rfl | rfl
    · exact Source.Script.check_source hclient hm hcomment hrender
    · exact Source.Script.check_source hclient hm hcomment hrender
  rcases hlanguage with rfl | rfl
  · rw [Check.check, hbrackets]
    rfl
  · rw [Check.check, hbrackets]
    rfl

/-- Quotes, brackets, comment marks, substitutions and line feeds wherever a document may have
them. -/
def unrulyDocument : Value :=
  .map
    [(.str "$url", .str "http://a/\x60\"'(["),
     (.str "get", .map
       [(.str "$url", .str "$\x7b!super\x7d//\x60\n'/<class>"),
        (.str "$params", .map
          [(.str "\x60]\"a//\n'", .str "string|default:\x60$\x7b\n//\\\\\"'(")])])]

/-- The class name ends in a line feed, and the command has a quote and a bracket. -/
theorem check_generate_unruly :
    '\n' ∉ "it's (".toList ∧ ∃ code,
      (generate unrulyDocument { generationCommand := "it's (" } .typeScript
        (some "Odd\n")).2 = .ok code ∧
      Check.check .typeScript code = .ok () := by
  refine ⟨by decide, ?_⟩
  have hok : (generate unrulyDocument { generationCommand := "it's (" } .typeScript
      (some "Odd\n")).2.isOk = true := by
    decide +kernel
  cases h : (generate unrulyDocument { generationCommand := "it's (" } .typeScript
      (some "Odd\n")).2 with
  | error fault =>
      rw [h] at hok
      cases hok
  | ok code => exact ⟨code, rfl, check_generate (Or.inr rfl) (by decide) h⟩

end Pipeline
end ClientForge
