import ClientForge.Proofs.Client.Linkage
import ClientForge.Proofs.Naming.Spelling
import ClientForge.Proofs.Pipeline
/-!
# Names that sources rely on

A printed source refers to names that it does not make up: the request functions, the receiver, and
the functions that quote a path parameter.  A parameter or a class with such a name takes its place.

Parameters are kept away from reserved words, and no name gives an underscore at the front unless a
digit follows.  What is left is one spelling in the camel style (`name_mem_referredNames_iff`).  A
class below the root has a capital or a digit after its first character, which none of the names
has; the name of the root class is taken as it is given (`name_mem_takenNames_iff`).
-/

namespace ClientForge

open Naming

/-! ## Parameters -/

/-- The names that the methods of a source refer to, besides their own parameters. -/
def referredNames : Language → List String
  | .javaScript => ["axios", "encodeURIComponent"]
  | .typeScript => ["axios", "encodeURIComponent"]
  | .python => ["self", "requests", "_path"]

/-- The words that the camel style joins to the name of the function that quotes a parameter. -/
def quotingWords : List (List Char) :=
  ["encode", "u", "r", "i", "component"].map String.toList

namespace Naming

private theorem identifier_eq_quoting_iff {language : Language} (hlanguage : language ≠ .python)
    (name : String) : (styleOf language).identifier name = "encodeURIComponent" ↔
      smallWords name = quotingWords := by
  have hlettered : Lettered quotingWords := by decide
  cases language with
  | javaScript =>
      exact identifier_eq_iff_smallWords_eq (by decide) hlettered (by decide)
        (by decide)
  | typeScript =>
      exact identifier_eq_iff_smallWords_eq (by decide) hlettered (by decide)
        (by decide)
  | python => exact absurd rfl hlanguage

private theorem identifier_ne_path (style : Style) (name : String) :
    style.identifier name ≠ "_path" := by
  intro h
  by_cases hwords : smallWords name = []
  · have hletter : Text.isWordChar 'p' = false :=
      (smallWords_eq_nil_iff_identifier style).mp hwords 'p' (by rw [h]; decide)
    revert hletter
    decide
  · have hdigit := isDigit_of_identifier_eq hwords (congrArg String.toList h)
    revert hdigit
    decide

/-- A name gets an identifier that methods refer to exactly if its words are those of the quoting
function and the style is the camel style. -/
theorem identifier_mem_referredNames_iff (language : Language) (name : String) :
    (styleOf language).identifier name ∈ referredNames language ↔
      language ≠ .python ∧ smallWords name = quotingWords := by
  have hfree : ∀ word ∈ (styleOf language).reserved, (styleOf language).identifier name ≠ word :=
    fun word hword heq => identifier_not_mem_reserved language name (heq ▸ hword)
  cases language with
  | javaScript =>
      have haxios := hfree "axios" (by decide)
      simp [referredNames, haxios, identifier_eq_quoting_iff]
  | typeScript =>
      have haxios := hfree "axios" (by decide)
      simp [referredNames, haxios, identifier_eq_quoting_iff]
  | python =>
      have hself := hfree "self" (by decide)
      have hrequests := hfree "requests" (by decide)
      simp [referredNames, hself, hrequests, identifier_ne_path]

end Naming

namespace Assembly

/-- The arguments of a method have the identifiers of their names on the wire. -/
theorem BuildsMethod.name_eq_identifier {style : Style} {depth : Nat} {action : Action}
    {f : Method} (h : BuildsMethod style depth action f) {a : Argument} (ha : a ∈ f.arguments) :
    a.name = style.identifier a.wireName := by
  rw [h.arguments_eq] at ha
  obtain ⟨p, -, rfl⟩ := List.mem_map.mp ha
  rfl

/-- A document whose module has a class that passes a test. -/
theorem exists_class_of_any (document : Value) (asked : Option String) (language : Language)
    (p : ClassDecl → Bool)
    (h : ((Schema.bindDocument document asked).result.toOption.any fun client =>
      (assemble language {} client).toOption.any fun m => m.classes.any p) = true) :
    ∃ client m c, (Schema.bindDocument document asked).result = .ok client ∧
      assemble language {} client = .ok m ∧ c ∈ m.classes ∧ p c = true := by
  obtain ⟨client, hbind, hclient⟩ := exists_eq_ok_of_any h
  obtain ⟨m, hassemble, hm⟩ := exists_eq_ok_of_any hclient
  obtain ⟨c, hc, hpasses⟩ := List.any_eq_true.mp hm
  exact ⟨client, m, c, hbind, hassemble, hc, hpasses⟩

/-- A parameter takes the place of a name that its method refers to in one case only: it has the
words of the quoting function, each initial letter as a word of its own, and these are joined in the
camel style. -/
theorem name_mem_referredNames_iff {language : Language} {config : Config} {client : Client}
    {m : Module} {c : ClassDecl} {f : Method} {a : Argument}
    (h : assemble language config client = .ok m) (hc : c ∈ m.classes) (hf : f ∈ c.methods)
    (ha : a ∈ f.arguments) :
    a.name ∈ referredNames language ↔
      language ≠ .python ∧ smallWords a.wireName = quotingWords := by
  obtain ⟨_, -, hclass⟩ := exists_left_of_forall₂ (assemble_eq_ok_iff.mp h).classes hc
  obtain ⟨_, -, hmethod⟩ := exists_left_of_forall₂ hclass.methods hf
  rw [hmethod.name_eq_identifier ha]
  exact identifier_mem_referredNames_iff language a.wireName

/-- Parameters whose names come close to names that methods refer to. -/
def closeDocument : Value :=
  .map
    [(.str "get", .map
       [(.str "$url", .str "$\x7b!super\x7d/<_path>/<self>"),
        (.str "$params", .map
          [(.str "Requests!", .null), (.str "axios", .null), (.str "encodeURIComponent", .null)])])]

theorem name_mem_referredNames_iff_close : ∃ client m c f a,
    (Schema.bindDocument closeDocument none).result = .ok client ∧
      assemble .javaScript {} client = .ok m ∧ c ∈ m.classes ∧ f ∈ c.methods ∧ a ∈ f.arguments ∧
      a.wireName = "encodeURIComponent" ∧ a.name = "encodeUriComponent" ∧
      (a.name ∈ referredNames .javaScript ↔
        Language.javaScript ≠ .python ∧ smallWords a.wireName = quotingWords) := by
  obtain ⟨client, m, c, hbind, hassemble, hc, hclass⟩ :=
    exists_class_of_any closeDocument none .javaScript
      (fun c => c.methods.any fun f => f.arguments.any fun a =>
        a.wireName = "encodeURIComponent" ∧ a.name = "encodeUriComponent") (by decide +kernel)
  obtain ⟨f, hf, hmethod⟩ := List.any_eq_true.mp hclass
  obtain ⟨a, ha, hnames⟩ := List.any_eq_true.mp hmethod
  obtain ⟨hwire, hname⟩ := of_decide_eq_true hnames
  exact ⟨client, m, c, f, a, hbind, hassemble, hc, hf, ha, hwire, hname,
    name_mem_referredNames_iff hassemble hc hf ha⟩

/-- An action with a path parameter, which has to be quoted, and a parameter that is named with
single letters. -/
def spelledDocument : Value :=
  .map
    [(.str "get", .map
       [(.str "$url", .str "$\x7b!super\x7d/<id>"),
        (.str "$params", .map [(.str "encode_u_r_i_component", .null)])])]

/-- The second parameter is what the source calls to quote the first one. -/
theorem exists_captured_spelledDocument :
    (∃ client m c f a, (Schema.bindDocument spelledDocument none).result = .ok client ∧
      assemble .javaScript {} client = .ok m ∧ c ∈ m.classes ∧ f ∈ c.methods ∧ a ∈ f.arguments ∧
      a.name ∈ referredNames .javaScript) ∧
    (Pipeline.generate spelledDocument { addGenerationComment := false } .javaScript none).2 =
      .ok (Text.unlines
        ["import axios from \"axios\";",
         "",
         "export class XSClient \x7b",
         "    constructor(url) \x7b",
         "        this._url = url;",
         "    \x7d",
         "",
         "    async get(id, encodeURIComponent) \x7b",
         "        return axios(\x7b",
         "            method: \"get\",",
         "            url: \x60$\x7bthis._url\x7d/$\x7bencodeURIComponent(id)\x7d\x60,",
         "            params: \x7b",
         "                \"encode_u_r_i_component\": encodeURIComponent,",
         "            \x7d,",
         "        \x7d);",
         "    \x7d",
         "\x7d"] ++ "\n") := by
  refine ⟨?_, by decide +kernel⟩
  obtain ⟨client, m, c, hbind, hassemble, hc, hclass⟩ :=
    exists_class_of_any spelledDocument none .javaScript
      (fun c => c.methods.any fun f => f.arguments.any fun a =>
        a.name ∈ referredNames .javaScript) (by decide +kernel)
  obtain ⟨f, hf, hmethod⟩ := List.any_eq_true.mp hclass
  obtain ⟨a, ha, hname⟩ := List.any_eq_true.mp hmethod
  exact ⟨client, m, c, f, a, hbind, hassemble, hc, hf, ha, of_decide_eq_true hname⟩

end Assembly

/-! ## Classes -/

/-- The names that a source binds or relies on at its top level, besides its classes. -/
def topLevelNames : Language → List String
  | .javaScript => ["axios"]
  | .typeScript => ["axios"]
  | .python => ["requests", "quote", "_path", "property"]

/-- The names that no class can have without doing harm. -/
def takenNames (language : Language) : List String :=
  (styleOf language).reserved ++ topLevelNames language

namespace Naming

/-- A capital or a digit. -/
def isMarked (c : Char) : Bool :=
  Text.isUpper c || Text.isNumeral c

/-- A name with words begins with a capital or a digit in the Pascal style. -/
theorem exists_toList_pascalCase {name : String} (h : smallWords name ≠ []) :
    ∃ c rest, (pascalCase name).toList = c :: rest ∧ isMarked c = true := by
  have hwords : wordsOf name.toList ≠ [] := fun hnil => h (List.map_eq_nil_iff.mpr hnil)
  obtain ⟨word, more, hcons⟩ := List.exists_cons_of_ne_nil hwords
  obtain ⟨hne, hchars⟩ := word_of_mem_wordsOf (hcons ▸ List.mem_cons_self)
  obtain ⟨c, cs, rfl⟩ := List.exists_cons_of_ne_nil hne
  refine ⟨Text.upperChar c, cs ++ more.flatMap capitalized, ?_, ?_⟩
  · rw [pascalCase, String.toList_ofList, hcons, List.flatMap_cons]
    rfl
  · exact Bool.or_eq_true_iff.mpr
      (Text.isUpper_upperChar_or_isNumeral (hchars c List.mem_cons_self))

/-- The name of a class below the root has a capital or a digit after its first character. -/
theorem exists_mem_tail_className {rootName : String} {names : List String} (hroot : rootName ≠ "")
    (hne : names ≠ []) (hnames : ∀ name ∈ names, smallWords name ≠ []) :
    (className rootName names).toList.tail.any isMarked = true := by
  obtain ⟨name, rest, rfl⟩ := List.exists_cons_of_ne_nil hne
  obtain ⟨c, more, hpascal, hc⟩ := exists_toList_pascalCase (hnames name List.mem_cons_self)
  obtain ⟨d, ds, hchars⟩ := List.exists_cons_of_ne_nil (mt String.toList_eq_nil_iff.mp hroot)
  have hlist : (className rootName (name :: rest)).toList =
      d :: (ds ++ (c :: more ++ rest.flatMap fun n => (pascalCase n).toList)) := by
    rw [className, String.toList_append, String.toList_join, List.flatMap_map, List.flatMap_cons,
      hchars, hpascal]
    rfl
  rw [hlist]
  simp [hc]

private theorem tail_of_mem_takenNames {language : Language} {name : String}
    (h : name ∈ takenNames language) : name.toList.tail.any isMarked = false := by
  have hall : ∀ language,
      ((takenNames language).all fun name => !name.toList.tail.any isMarked) = true := by
    intro language
    cases language with
    | javaScript => decide
    | typeScript => decide
    | python => decide
  simpa using List.all_eq_true.mp (hall language) name h

/-- No class below the root has a name that is taken. -/
theorem className_not_mem_takenNames {language : Language} {rootName : String}
    {names : List String} (hroot : rootName ≠ "") (hne : names ≠ [])
    (hnames : ∀ name ∈ names, smallWords name ≠ []) :
    className rootName names ∉ takenNames language := by
  intro hmem
  have hmarked := exists_mem_tail_className hroot hne hnames
  rw [tail_of_mem_takenNames hmem] at hmarked
  cases hmarked

@[simp] theorem className_nil (rootName : String) : className rootName [] = rootName :=
  String.append_empty

end Naming

namespace Assembly

/-- The root class is the one that no names lead to. -/
theorem BuildsClass.isRoot_iff {style : Style} {rootName : String} {names : List String}
    {url : Option String} {set : ApiSet} {c : ClassDecl}
    (h : BuildsClass style rootName names (constructorAt rootName (rootConstructor url) names) set c) :
    c.isRoot = true ↔ names = [] := by
  rw [ClassDecl.isRoot, h.constructor_eq]
  cases names with
  | nil => exact iff_of_true rfl rfl
  | cons first rest => exact iff_of_false Bool.false_ne_true (List.cons_ne_nil _ _)

namespace Assembles

variable {language : Language} {config : Config} {client : Client} {m : Module} {c : ClassDecl}

/-- The root class has the name of the client. -/
theorem name_eq_of_isRoot (h : Assembles language config client m) (hc : c ∈ m.classes)
    (hroot : c.isRoot = true) : c.name = client.className := by
  obtain ⟨⟨names, set⟩, -, hclass⟩ := exists_left_of_forall₂ h.classes hc
  obtain rfl := hclass.isRoot_iff.mp hroot
  exact hclass.name_eq.trans (className_nil client.className)

open Schema in
/-- Only the root class can have a name that is taken. -/
theorem isRoot_of_name_mem_takenNames {asked : Option String} {root : Entries}
    {members : List Member} (h : Assembles language config client m)
    (hclient : BindsClient asked root members client) (hc : c ∈ m.classes)
    (hname : c.name ∈ takenNames language) : c.isRoot = true := by
  obtain ⟨⟨names, set⟩, hvisit, hclass⟩ := exists_left_of_forall₂ h.classes hc
  rw [hclass.isRoot_iff]
  by_contra hne
  rw [hclass.name_eq] at hname
  refine className_not_mem_takenNames ?_ hne ?_ hname
  · intro hempty
    have hform := (readClassName_eq_ok_iff.mp hclient.className).2
    rw [hempty] at hform
    cases hform
  · intro name hmem
    exact smallWords_ne_nil_of_isMemberName (isMemberName_of_visit hclient hvisit name hmem)

end Assembles

open Schema in
/-- A class has a name that is taken exactly if it is the root class and that name was chosen for
it, from the three places where it can be given. -/
theorem name_mem_takenNames_iff {root : Entries} {asked : Option String} {client : Client}
    {language : Language} {config : Config} {m : Module} {c : ClassDecl}
    (hbind : (bindDocument (.map root) asked).result = .ok client)
    (hassemble : assemble language config client = .ok m) (hc : c ∈ m.classes) :
    c.name ∈ takenNames language ↔ c.isRoot = true ∧ ∃ name ∈ takenNames language,
      (classNames asked (Value.field "$as" root)).find? Value.isTruthy = some (.str name) := by
  obtain ⟨_, _, heq, hclient⟩ := bindDocument_eq_ok_iff.mp hbind
  cases heq
  have hm := assemble_eq_ok_iff.mp hassemble
  have hchosen := (readClassName_eq_ok_iff.mp hclient.className).1
  rw [find?_classNames, hchosen]
  constructor
  · intro htaken
    have hroot := hm.isRoot_of_name_mem_takenNames hclient hc htaken
    exact ⟨hroot, c.name, htaken, by rw [hm.name_eq_of_isRoot hc hroot]⟩
  · rintro ⟨hroot, name, htaken, heq⟩
    cases heq
    rw [hm.name_eq_of_isRoot hc hroot]
    exact htaken

/-- A document with its own class name, and sets whose names end like a reserved word. -/
def ambitiousEntries : Schema.Entries :=
  [(.str "$as", .str "class"),
   (.str "~axios", .map
     [(.str "$url", .str "/a"), (.str "~lass", .map [(.str "$url", .str "/l")])])]

open Schema in
theorem name_mem_takenNames_iff_ambitious : ∃ client m c,
    (bindDocument (.map ambitiousEntries) (some "c")).result = .ok client ∧
      assemble .python {} client = .ok m ∧ c ∈ m.classes ∧ c.name = "cAxiosLass" ∧
      (c.name ∈ takenNames .python ↔ c.isRoot = true ∧ ∃ name ∈ takenNames .python,
        (classNames (some "c") (Value.field "$as" ambitiousEntries)).find? Value.isTruthy =
          some (.str name)) := by
  obtain ⟨client, m, c, hbind, hassemble, hc, hname⟩ :=
    exists_class_of_any (.map ambitiousEntries) (some "c") .python (·.name = "cAxiosLass")
      (by decide +kernel)
  exact ⟨client, m, c, hbind, hassemble, hc, of_decide_eq_true hname,
    name_mem_takenNames_iff hbind hassemble hc⟩

/-- The root class has the name under which the source imports the request function, and that name
is reserved for parameters and members. -/
theorem exists_taken_axios :
    (∃ client m c, (Schema.bindDocument (.map []) (some "axios")).result = .ok client ∧
      assemble .javaScript {} client = .ok m ∧ c ∈ m.classes ∧
      c.name ∈ (styleOf .javaScript).reserved ∧ c.name ∈ topLevelNames .javaScript) ∧
    (Pipeline.generate (.map []) { addGenerationComment := false } .javaScript (some "axios")).2 =
      .ok (Text.unlines
        ["import axios from \"axios\";",
         "",
         "export class axios \x7b",
         "    constructor(url) \x7b",
         "        this._url = url;",
         "    \x7d",
         "\x7d"] ++ "\n") := by
  refine ⟨?_, by decide⟩
  obtain ⟨client, m, c, hbind, hassemble, hc, hname⟩ :=
    exists_class_of_any (.map []) (some "axios") .javaScript
      (fun c => c.name ∈ (styleOf .javaScript).reserved ∧ c.name ∈ topLevelNames .javaScript)
      (by decide)
  exact ⟨client, m, c, hbind, hassemble, hc, of_decide_eq_true hname⟩

end Assembly
end ClientForge
