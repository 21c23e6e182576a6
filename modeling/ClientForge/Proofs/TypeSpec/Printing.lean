import ClientForge.Proofs.Basics
import ClientForge.Proofs.Text.Split
import ClientForge.TypeSpec
/-!
# Written type specs

`TypeSpec.written` writes a type, and a default that is text, with a backslash before each bar and
backslash of it.  It is read back as it was (`parse_written`), unless blanks at the ends of the
default are lost.
-/

namespace ClientForge

/-- Characters with a backslash before each of the marks. -/
def Text.escaped (marks cs : List Char) : List Char :=
  cs.flatMap fun c => if c ∈ marks then ['\\', c] else [c]

theorem Text.escaped_cons_of_mem {marks : List Char} {c : Char} (h : c ∈ marks) (cs : List Char) :
    escaped marks (c :: cs) = '\\' :: c :: escaped marks cs := by
  simp [escaped, h]

theorem Text.escaped_cons_of_not_mem {marks : List Char} {c : Char} (h : c ∉ marks)
    (cs : List Char) : escaped marks (c :: cs) = c :: escaped marks cs := by
  simp [escaped, h]

/-- Escaping brings in nothing but backslashes. -/
theorem Text.mem_of_mem_escaped {marks cs : List Char} {c : Char} (h : c ∈ escaped marks cs)
    (hc : c ≠ '\\') : c ∈ cs := by
  obtain ⟨d, hd, hmem⟩ := List.mem_flatMap.mp h
  split at hmem
  · simp only [List.mem_cons, hc, List.not_mem_nil, or_false, false_or] at hmem
    exact hmem ▸ hd
  · rw [List.mem_singleton.mp hmem]
    exact hd

namespace TypeSpec

/-- What has to be escaped in a default. -/
def defaultMarks : List Char := ['\\', '|']

/-- A type spec as it is written in a schema; a default that is not text is left out. -/
def written (spec : TypeSpec) : List Char :=
  match spec.default with
  | some (.string v) =>
    spec.primitive.name.toList ++ '|' :: ("default:".toList ++ Text.escaped defaultMarks v.toList)
  | _ => spec.primitive.name.toList

/-- Type specs that can be written: there is no default, or it is text without blanks at its
ends. -/
def Writable (spec : TypeSpec) : Prop :=
  spec.default = none ∨ spec.primitive = .string ∧
    ∃ v, spec.default = some (.string v) ∧ Text.Unpadded v.toList

/-! ## Sections -/

theorem sections_escape (c : Char) (rest : List Char) :
    sections ('\\' :: c :: rest) = (sections rest).map (prepend c) := by
  rw [sections]

theorem sections_bar (rest : List Char) :
    sections ('|' :: rest) = (sections rest).map ([] :: ·) := by
  rw [sections, if_pos rfl]
  · exact fun h => absurd h (by decide)
  · exact fun _ _ h => absurd h (by decide)

theorem sections_plain {c : Char} (hescape : c ≠ '\\') (hbar : c ≠ '|') (rest : List Char) :
    sections (c :: rest) = (sections rest).map (prepend c) := by
  rw [sections, if_neg hbar]
  · exact fun h => absurd h hescape
  · exact fun _ _ h => absurd h hescape

theorem sections_escaped (v : List Char) :
    sections (Text.escaped defaultMarks v) = some [v] := by
  induction v with
  | nil => rfl
  | cons c rest ih =>
      by_cases hc : c ∈ defaultMarks
      · rw [Text.escaped_cons_of_mem hc, sections_escape, ih]
        rfl
      · have hplain : c ≠ '\\' ∧ c ≠ '|' := by simpa [defaultMarks] using hc
        rw [Text.escaped_cons_of_not_mem hc, sections_plain hplain.1 hplain.2, ih]
        rfl

/-- A word without marks goes to the first section after it. -/
theorem sections_append {word rest piece : List Char} {pieces : List (List Char)}
    (hword : ∀ c ∈ word, c ∉ defaultMarks) (h : sections rest = some (piece :: pieces)) :
    sections (word ++ rest) = some ((word ++ piece) :: pieces) := by
  induction word with
  | nil => exact h
  | cons c word ih =>
      rw [List.forall_mem_cons] at hword
      have hplain : c ≠ '\\' ∧ c ≠ '|' := by simpa [defaultMarks] using hword.1
      rw [List.cons_append, sections_plain hplain.1 hplain.2, ih hword.2]
      rfl

/-! ## Reading back -/

theorem parse_name (p : Primitive) : parse p.name = .ok ⟨p, none⟩ := by
  cases p with
  | string => decide +kernel
  | number => decide +kernel
  | boolean => decide +kernel

theorem sections_written_string (v : String) :
    sections (written ⟨.string, some (.string v)⟩) =
      some ["string".toList, "default:".toList ++ v.toList] := by
  have hword : ∀ c ∈ "default:".toList, c ∉ defaultMarks := by simp [defaultMarks]
  have hname : ∀ c ∈ "string".toList, c ∉ defaultMarks := by simp [defaultMarks]
  have hdefault := sections_append hword (sections_escaped v.toList)
  have hbar : sections ('|' :: ("default:".toList ++ Text.escaped defaultMarks v.toList)) =
      some [[], "default:".toList ++ v.toList] := by
    rw [sections_bar, hdefault]
    rfl
  have htype := sections_append hname hbar
  rw [List.append_nil] at htype
  exact htype

/-- A written default is read without the blanks at its ends. -/
theorem parse_written_default (v : String) :
    parse (String.ofList (written ⟨.string, some (.string v)⟩)) =
      .ok ⟨.string, some (.string (Text.strip v))⟩ := by
  have hcolon : ':' ∉ "default".toList := by decide
  have hcut : Text.cut ':' ("default:".toList ++ v.toList) = ("default".toList, some v.toList) :=
    Text.cut_append hcolon v.toList
  have hname : String.ofList (Text.trim "default".toList) = "default" := by decide +kernel
  have hread : readModifiers .string none ["default:".toList ++ v.toList] =
      .ok (some (.string (Text.strip v))) := by
    rw [readModifiers, hcut]
    dsimp only
    rw [hname, if_neg (by decide), if_neg (by decide)]
    rfl
  have htype : Primitive.ofName? (String.ofList (Text.trim "string".toList)) = some .string := by
    decide +kernel
  rw [parse, String.toList_ofList, sections_written_string]
  dsimp only
  rw [ofSections, htype]
  dsimp only
  rw [hread]
  rfl

/-- A default without blanks at its ends is read back. -/
theorem parse_written_string {v : String} (h : Text.Unpadded v.toList) :
    parse (String.ofList (written ⟨.string, some (.string v)⟩)) =
      .ok ⟨.string, some (.string v)⟩ := by
  rw [parse_written_default, Text.strip, Text.trim_of_padded h (Text.padded_self v.toList),
    String.ofList_toList]

/-- What is written for a type spec is read back. -/
theorem parse_written {spec : TypeSpec} (h : spec.Writable) :
    parse (String.ofList spec.written) = .ok spec := by
  obtain ⟨p, d⟩ := spec
  rcases h with hnone | ⟨hstring, v, hsome, hv⟩
  · dsimp only at hnone
    subst hnone
    rw [written, String.ofList_toList]
    exact parse_name p
  · dsimp only at hstring hsome
    subst hstring hsome
    exact parse_written_string hv

/-! ## Characters -/

/-- A type spec begins with the name of its type. -/
theorem exists_written_eq (spec : TypeSpec) :
    ∃ rest, spec.written = spec.primitive.name.toList ++ rest := by
  unfold written
  split
  · exact ⟨_, rfl⟩
  · exact ⟨[], (List.append_nil _).symm⟩

theorem exists_not_isBlank_written (spec : TypeSpec) :
    ∃ c ∈ spec.written, Text.isBlank c = false := by
  have hname : ∃ c ∈ spec.primitive.name.toList, Text.isBlank c = false := by
    cases spec.primitive with
    | string => exact ⟨'s', by decide, by decide⟩
    | number => exact ⟨'n', by decide, by decide⟩
    | boolean => exact ⟨'b', by decide, by decide⟩
  obtain ⟨c, hc, hblank⟩ := hname
  obtain ⟨rest, hwritten⟩ := exists_written_eq spec
  rw [hwritten]
  exact ⟨c, List.mem_append_left rest hc, hblank⟩

/-- A closing mark can come from the default only. -/
theorem mark_not_mem_written {spec : TypeSpec}
    (h : ∀ v, spec.default = some (.string v) → '>' ∉ v.toList) : '>' ∉ spec.written := by
  have hname : '>' ∉ spec.primitive.name.toList := by
    cases spec.primitive with
    | string => decide
    | number => decide
    | boolean => decide
  unfold written
  split
  · rename_i v hv
    have hdefault : '>' ∉ "default:".toList := by decide
    have hescaped : '>' ∉ Text.escaped defaultMarks v.toList := fun hmem =>
      h v hv (Text.mem_of_mem_escaped hmem (by decide))
    rw [List.mem_append, List.mem_cons, List.mem_append]
    simp only [hname, hdefault, hescaped, or_false, false_or]
    decide
  · exact hname

end TypeSpec
end ClientForge
