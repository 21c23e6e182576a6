import ClientForge.Proofs.Decimal.NumberText
import ClientForge.Proofs.TypeSpec.Printing
/-!
# The grammar of type specs

`Declares` says which texts are type specs and which type and default each declares: a type, or a
type and a default after a bar.  A backslash takes away the meaning of the character after it
(`Spells`), and `Converts` says which values the types have.  Reading accepts exactly these texts
(`parse_iff_declares`), and every text without blanks at its ends is the default of some type spec.
-/

namespace ClientForge

namespace TypeSpec

/-! ## The grammar -/

/-- A text with escapes and what it stands for; a backslash and a bar have to be escaped. -/
inductive Spells : List Char → List Char → Prop
  | nil : Spells [] []
  | plain {c : Char} {cs meant : List Char} (hc : c ∉ defaultMarks) (h : Spells cs meant) :
      Spells (c :: cs) (c :: meant)
  | escaped {c : Char} {cs meant : List Char} (h : Spells cs meant) :
      Spells ('\\' :: c :: cs) (c :: meant)

/-- The default of a type that a text stands for. -/
inductive Converts : Primitive → List Char → Literal → Prop
  | string (raw : List Char) : Converts .string raw (.string (String.ofList raw))
  | boolean {raw : List Char} (b : Bool) (h : raw.map Char.toLower = (toString b).toList) :
      Converts .boolean raw (.boolean b)
  | integer {raw digits : List Char} {negative : Bool} (h : IntegerText raw negative digits)
      (hlimit : digits.length ≤ 4300) :
      Converts .number raw (.integer (signed negative (decimal (digits.map Binary64.digitValue))))
  | number {raw : List Char} {negative : Bool} {digits m : Nat} {k e : Int}
      (hinteger : ∀ t ds, ¬IntegerText raw t ds) (h : FloatText raw negative digits k)
      (hnearest : Binary64.Nearest (digits * 10 ^ k) m e) :
      Converts .number raw (.number (.finite negative m e))

/-- What a text declares: a type, or a type and a default. -/
inductive Declares : List Char → TypeSpec → Prop
  | bare {text head : List Char} {p : Primitive} (hhead : Spells text head)
      (hname : Text.trim head = p.name.toList) : Declares text ⟨p, none⟩
  | default {first second head name raw : List Char} {p : Primitive} {value : Literal}
      (hhead : Spells first head) (hname : Text.trim head = p.name.toList)
      (hmodifier : Spells second (name ++ ':' :: raw))
      (hdefault : Text.trim name = "default".toList) (hvalue : Converts p (Text.trim raw) value) :
      Declares (first ++ '|' :: second) ⟨p, some value⟩

/-! ## Sections -/

theorem Spells.sections_eq {cs meant : List Char} (h : Spells cs meant) :
    sections cs = some [meant] := by
  induction h with
  | nil => rfl
  | plain hc _ ih =>
      have hplain := by simpa [defaultMarks] using hc
      rw [sections_plain hplain.1 hplain.2, ih]
      rfl
  | escaped _ ih =>
      rw [sections_escape, ih]
      rfl

theorem Spells.sections_append {cs meant : List Char} (h : Spells cs meant) (rest : List Char) :
    sections (cs ++ '|' :: rest) = (sections rest).map (meant :: ·) := by
  induction h with
  | nil => exact sections_bar rest
  | plain hc _ ih =>
      have hplain := by simpa [defaultMarks] using hc
      rw [List.cons_append, sections_plain hplain.1 hplain.2, ih, Option.map_map]
      rfl
  | escaped _ ih =>
      rw [List.cons_append, List.cons_append, sections_escape, ih, Option.map_map]
      rfl

/-- The first section is spelled by the text up to its first bar without a backslash. -/
theorem exists_of_sections {cs : List Char} {parts : List (List Char)}
    (h : sections cs = some parts) :
    ∃ head rest, parts = head :: rest ∧
      (Spells cs head ∧ rest = [] ∨
        ∃ first second, cs = first ++ '|' :: second ∧ Spells first head ∧
          sections second = some rest) := by
  fun_induction sections cs generalizing parts with
  | case1 =>
      obtain rfl := Option.some.inj h
      exact ⟨[], [], rfl, Or.inl ⟨.nil, rfl⟩⟩
  | case2 => cases h
  | case3 c cs ih =>
      obtain ⟨tail, htail, rfl⟩ := Option.map_eq_some_iff.mp h
      obtain ⟨head, rest, rfl, hspelled⟩ := ih htail
      refine ⟨c :: head, rest, rfl, ?_⟩
      rcases hspelled with ⟨hspells, hrest⟩ | ⟨first, second, rfl, hspells, hrest⟩
      · exact Or.inl ⟨.escaped hspells, hrest⟩
      · exact Or.inr ⟨'\\' :: c :: first, second, rfl, .escaped hspells, hrest⟩
  | case4 cs hescape hpair ih =>
      obtain ⟨tail, htail, rfl⟩ := Option.map_eq_some_iff.mp h
      exact ⟨[], tail, rfl, Or.inr ⟨[], cs, rfl, .nil, htail⟩⟩
  | case5 c cs hdangling hescape hbar ih =>
      obtain ⟨tail, htail, rfl⟩ := Option.map_eq_some_iff.mp h
      obtain ⟨head, rest, rfl, hspelled⟩ := ih htail
      have hmark : c ≠ '\\' := by
        intro hc
        cases cs with
        | nil => exact hdangling hc rfl
        | cons d cs => exact hescape d cs hc rfl
      have hc : c ∉ defaultMarks := by
        simp [defaultMarks, hmark, hbar]
      refine ⟨c :: head, rest, rfl, ?_⟩
      rcases hspelled with ⟨hspells, hrest⟩ | ⟨first, second, rfl, hspells, hrest⟩
      · exact Or.inl ⟨.plain hc hspells, hrest⟩
      · exact Or.inr ⟨c :: first, second, rfl, .plain hc hspells, hrest⟩

theorem sections_eq_singleton_iff {cs head : List Char} :
    sections cs = some [head] ↔ Spells cs head := by
  refine ⟨fun h => ?_, Spells.sections_eq⟩
  obtain ⟨head', rest, heq, hspelled⟩ := exists_of_sections h
  obtain ⟨rfl, rfl⟩ := List.cons.inj heq
  rcases hspelled with ⟨hspells, -⟩ | ⟨first, second, -, -, hsecond⟩
  · exact hspells
  · -- there is always a section
    obtain ⟨_, _, hnil, -⟩ := exists_of_sections hsecond
    cases hnil

theorem sections_eq_pair_iff {cs head part : List Char} :
    sections cs = some [head, part] ↔
      ∃ first second, cs = first ++ '|' :: second ∧ Spells first head ∧ Spells second part := by
  constructor
  · intro h
    obtain ⟨head', rest, heq, hspelled⟩ := exists_of_sections h
    obtain ⟨rfl, rfl⟩ := List.cons.inj heq
    rcases hspelled with ⟨-, hnil⟩ | ⟨first, second, rfl, hfirst, hsecond⟩
    · cases hnil
    · exact ⟨first, second, rfl, hfirst, sections_eq_singleton_iff.mp hsecond⟩
  · rintro ⟨first, second, rfl, hfirst, hsecond⟩
    rw [hfirst.sections_append, hsecond.sections_eq]
    rfl

/-! ## Defaults -/

theorem readBoolean_eq_ok_iff {raw : String} {value : Literal} :
    readBoolean raw = .ok value ↔ Converts .boolean raw.toList value := by
  have hlower : ∀ word : String,
      Text.lower raw = word ↔ raw.toList.map Char.toLower = word.toList := by
    intro word
    rw [Text.lower, ← String.toList_inj, String.toList_ofList,
      List.map_congr_left fun c _ => Text.lowerChar_eq_toLower c]
  rw [readBoolean]
  constructor
  · intro h
    split at h
    · rename_i htrue
      rw [← Except.ok.inj h]
      exact .boolean true ((hlower _).mp htrue)
    · split at h
      · rename_i hfalse
        rw [← Except.ok.inj h]
        exact .boolean false ((hlower _).mp hfalse)
      · cases h
  · intro h
    cases h with
    | boolean b h =>
        cases b with
        | true =>
            have hword : Text.lower raw = "true" := (hlower _).mpr h
            rw [if_pos hword]
        | false =>
            have hword : Text.lower raw = "false" := (hlower _).mpr h
            rw [hword]
            rfl

theorem readNumber_eq_ok_iff {raw : String} {value : Literal} :
    readNumber raw = .ok value ↔ Converts .number raw.toList value := by
  rw [readNumber]
  by_cases hinteger : isIntegerText raw.toList = true
  · obtain ⟨negative, digits, htext⟩ := exists_of_isIntegerText hinteger
    rw [if_pos hinteger, htext.splitSign_eq, htext.integerOfText_eq]
    dsimp only
    constructor
    · intro h
      split at h
      · cases h
      · rename_i hlimit
        rw [← Except.ok.inj h]
        exact .integer htext (not_lt.mp hlimit)
    · intro h
      cases h with
      | integer htext' hlimit =>
          obtain ⟨rfl, rfl⟩ := Prod.mk.inj (htext.splitSign_eq.symm.trans htext'.splitSign_eq)
          have hcount : ¬integerDigitLimit < digits.length := not_lt.mpr hlimit
          rw [if_neg hcount]
      | number hnot _ _ => exact absurd htext (hnot _ _)
  · rw [if_neg hinteger]
    have hnot : ∀ t ds, ¬IntegerText raw.toList t ds := fun t ds h => hinteger h.isIntegerText_eq
    constructor
    · intro h
      split at h
      · cases h
      · rename_i x hread
        cases x with
        | nan => cases h
        | infinite t => cases h
        | finite t m e =>
            obtain ⟨digits, k, htext, hnearest⟩ := Binary64.read?_eq_finite_iff.mp hread
            rw [← Except.ok.inj h]
            exact .number hnot htext hnearest
    · intro h
      cases h with
      | integer htext _ => exact absurd htext (hnot _ _)
      | number _ htext hnearest =>
          rw [Binary64.read?_eq_finite_iff.mpr ⟨_, _, htext, hnearest⟩]
          rfl

theorem readDefault_eq_ok_iff {p : Primitive} {raw : String} {value : Literal} :
    readDefault p raw = .ok value ↔ Converts p raw.toList value := by
  cases p with
  | string =>
      rw [readDefault, Except.ok.injEq]
      constructor
      · rintro rfl
        simpa using Converts.string raw.toList
      · intro h
        cases h
        rw [String.ofList_toList]
  | boolean => exact readBoolean_eq_ok_iff
  | number => exact readNumber_eq_ok_iff

/-! ## Modifiers -/

/-- A modifier that is accepted is the first default. -/
theorem exists_of_readModifiers_cons {p : Primitive} {found d : Option Literal} {part : List Char}
    {parts : List (List Char)} (h : readModifiers p found (part :: parts) = .ok d) :
    found = none ∧ ∃ name raw value, part = name ++ ':' :: raw ∧
      Text.trim name = "default".toList ∧ Converts p (Text.trim raw) value ∧
        readModifiers p (some value) parts = .ok d := by
  rw [readModifiers] at h
  rcases hcut : Text.cut ':' part with ⟨name, _ | raw⟩
  · rw [hcut] at h
    cases h
  · obtain ⟨rfl, -⟩ := Text.cut_eq_some_iff.mp hcut
    rw [hcut] at h
    dsimp only at h
    split at h
    · cases h
    · split at h
      · cases h
      · rename_i hname
        split at h
        · cases h
        · rename_i hfound
          have hdefault : Text.trim name = "default".toList := by
            rw [← not_not.mp hname, String.toList_ofList]
          refine ⟨Option.not_isSome_iff_eq_none.mp hfound, name, raw, ?_⟩
          split at h
          · cases h
          · rename_i value hvalue
            rw [readDefault_eq_ok_iff, String.toList_ofList] at hvalue
            exact ⟨value, rfl, hdefault, hvalue, h⟩

/-- After a default there is no other modifier. -/
theorem readModifiers_some_eq_ok_iff {p : Primitive} {value : Literal} {parts : List (List Char)}
    {d : Option Literal} :
    readModifiers p (some value) parts = .ok d ↔ parts = [] ∧ d = some value := by
  cases parts with
  | nil => simp [readModifiers, eq_comm]
  | cons part parts =>
      constructor
      · intro h
        cases (exists_of_readModifiers_cons h).1
      · rintro ⟨h, -⟩
        cases h

theorem readModifiers_default {p : Primitive} {name raw : List Char} {value : Literal}
    (hname : Text.trim name = "default".toList) (hvalue : Converts p (Text.trim raw) value) :
    readModifiers p none [name ++ ':' :: raw] = .ok (some value) := by
  have hcolon : ':' ∉ name :=
    Text.colon_not_mem_of_padded (by decide) (hname ▸ Text.padded_trim name)
  have hread : readDefault p (String.ofList (Text.trim raw)) = .ok value := by
    rw [readDefault_eq_ok_iff, String.toList_ofList]
    exact hvalue
  rw [readModifiers, Text.cut_append hcolon]
  dsimp only
  rw [hname, String.ofList_toList, if_neg (by decide), if_neg (by decide), if_neg (by decide),
    hread]
  rfl

theorem readModifiers_eq_ok_iff {p : Primitive} {parts : List (List Char)} {d : Option Literal} :
    readModifiers p none parts = .ok d ↔
      parts = [] ∧ d = none ∨
        ∃ name raw value, parts = [name ++ ':' :: raw] ∧ Text.trim name = "default".toList ∧
          Converts p (Text.trim raw) value ∧ d = some value := by
  constructor
  · intro h
    cases parts with
    | nil =>
        rw [readModifiers, Except.ok.injEq] at h
        exact Or.inl ⟨rfl, h.symm⟩
    | cons part parts =>
        obtain ⟨-, name, raw, value, rfl, hname, hvalue, hrest⟩ := exists_of_readModifiers_cons h
        obtain ⟨rfl, rfl⟩ := readModifiers_some_eq_ok_iff.mp hrest
        exact Or.inr ⟨name, raw, value, rfl, hname, hvalue, rfl⟩
  · rintro (⟨rfl, rfl⟩ | ⟨name, raw, value, rfl, hname, hvalue, rfl⟩)
    · rw [readModifiers]
    · exact readModifiers_default hname hvalue

theorem ofName?_eq_some_iff {s : String} {p : Primitive} :
    Primitive.ofName? s = some p ↔ s = p.name := by
  constructor
  · intro h
    rw [Primitive.ofName?] at h
    simpa [eq_comm] using List.find?_some h
  · rintro rfl
    cases p with
    | string => rfl
    | number => rfl
    | boolean => rfl

theorem ofSections_eq_ok_iff {head : List Char} {rest : List (List Char)} {p : Primitive}
    {d : Option Literal} :
    ofSections (head :: rest) = .ok ⟨p, d⟩ ↔
      Text.trim head = p.name.toList ∧ readModifiers p none rest = .ok d := by
  have hname : Text.trim head = p.name.toList ↔
      Primitive.ofName? (String.ofList (Text.trim head)) = some p := by
    rw [ofName?_eq_some_iff, ← String.toList_inj, String.toList_ofList]
  rw [ofSections, hname]
  cases Primitive.ofName? (String.ofList (Text.trim head)) with
  | none => simp
  | some p' =>
      rw [exceptMap_eq_ok_iff, Option.some.injEq]
      constructor
      · rintro ⟨d', hread, heq⟩
        obtain ⟨rfl, rfl⟩ := TypeSpec.mk.inj heq
        exact ⟨rfl, hread⟩
      · rintro ⟨rfl, hread⟩
        exact ⟨d, hread, rfl⟩

/-! ## Reading -/

theorem parse_eq_ok_iff_sections {text : String} {spec : TypeSpec} :
    parse text = .ok spec ↔ ∃ head rest, sections text.toList = some (head :: rest) ∧
      ofSections (head :: rest) = .ok spec := by
  rw [parse]
  cases hparts : sections text.toList with
  | none => simp
  | some parts =>
      obtain ⟨head, rest, rfl, -⟩ := exists_of_sections hparts
      simp

/-- Reading accepts exactly the texts of the grammar. -/
theorem parse_eq_ok_iff {text : String} {spec : TypeSpec} :
    parse text = .ok spec ↔ Declares text.toList spec := by
  obtain ⟨p, d⟩ := spec
  rw [parse_eq_ok_iff_sections]
  constructor
  · rintro ⟨head, rest, hparts, hspec⟩
    obtain ⟨hname, hmodifiers⟩ := ofSections_eq_ok_iff.mp hspec
    rcases readModifiers_eq_ok_iff.mp hmodifiers with
      ⟨rfl, rfl⟩ | ⟨name, raw, value, rfl, hdefault, hvalue, rfl⟩
    · exact .bare (sections_eq_singleton_iff.mp hparts) hname
    · obtain ⟨first, second, htext, hhead, hmodifier⟩ := sections_eq_pair_iff.mp hparts
      rw [htext]
      exact .default hhead hname hmodifier hdefault hvalue
  · intro h
    generalize text.toList = cs at h
    cases h with
    | bare hhead hname =>
        exact ⟨_, [], sections_eq_singleton_iff.mpr hhead,
          ofSections_eq_ok_iff.mpr ⟨hname, readModifiers_eq_ok_iff.mpr (Or.inl ⟨rfl, rfl⟩)⟩⟩
    | default hhead hname hmodifier hdefault hvalue =>
        exact ⟨_, [_], sections_eq_pair_iff.mpr ⟨_, _, rfl, hhead, hmodifier⟩,
          ofSections_eq_ok_iff.mpr ⟨hname, readModifiers_default hdefault hvalue⟩⟩

/-- Reading accepts exactly the type specs, and every text can be written as a default, of which
only the blanks at the ends are lost. -/
theorem parse_iff_declares :
    (∀ (text : String) (spec : TypeSpec), parse text = .ok spec ↔ Declares text.toList spec) ∧
      ∀ v : String,
        parse ("string|default:" ++ String.ofList (Text.escaped defaultMarks v.toList)) =
          .ok ⟨.string, some (.string (Text.strip v))⟩ := by
  refine ⟨fun text spec => parse_eq_ok_iff, fun v => ?_⟩
  have hwritten : "string|default:" ++ String.ofList (Text.escaped defaultMarks v.toList) =
      String.ofList (written ⟨.string, some (.string v)⟩) := by
    simp [← String.toList_inj, written, Primitive.name]
  rw [hwritten]
  exact parse_written_default v

-- digits of other scripts make a number of the binary format, never a whole one
example : parse "number | default: ٣_0e-1" =
    .ok ⟨.number, some (.number (.finite false 6755399441055744 (-51)))⟩ := by
  decide +kernel

end TypeSpec
end ClientForge
