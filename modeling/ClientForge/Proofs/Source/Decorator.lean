import ClientForge.Proofs.Client.Shadowing
/-!
# Decorators of accessors

In a Python source every accessor stands below a decorator, and the decorator is looked up by its
name when the class body is run.  `keepsDecorator` runs the statements of a class body: a function
binds its name, and a decorator below it no longer finds the built-in function of that name.

The constructor and the accessors stand before all other functions, so only an accessor can get in
the way, and only of those that follow it (`keepsDecorator_classStatements`).  An accessor has the
name of the decorator exactly if this is the only word in the name of its set, which gives
`keepsDecorator_iff`.
-/

namespace ClientForge
namespace Source
namespace PythonText

/-- The statement above an accessor. -/
def decorator : String := "    @property"

/-- The name that a statement of a class body binds: that of the function, if one begins there. -/
def boundName? (statement : String) : Option String :=
  if startsWith "    def " statement.toList then
    some (String.ofList ((statement.toList.drop 8).takeWhile (· != '(')))
  else none

/-- Whether the decorators among statements find the built-in function.  The statements bind names
one after another, besides those that are bound before. -/
def keepsDecorator (bound : List String) : List String → Bool
  | [] => true
  | statement :: rest =>
    (statement != decorator || !bound.contains "property") &&
      keepsDecorator (bound ++ (boundName? statement).toList) rest

/-! ## Statements -/

theorem toList_defLine (name parameters result : String) :
    (defLine name parameters result).toList = "    def ".toList ++ (name.toList ++ '(' ::
      (parameters ++ ") -> " ++ result ++ ":").toList) := by
  unfold defLine
  simp

theorem boundName?_defLine {name : String} (h : '(' ∉ name.toList) (parameters result : String) :
    boundName? (defLine name parameters result) = some name := by
  have hdrop : ∀ cs, ("    def ".toList ++ cs).drop 8 = cs := fun _ => rfl
  have hname : ∀ c ∈ name.toList, (c != '(') = true := by
    intro c hc
    rw [bne_iff_ne]
    rintro rfl
    exact h hc
  rw [boundName?, toList_defLine, startsWith,
    if_pos (List.isPrefixOf_iff_prefix.mpr (List.prefix_append _ _)), hdrop,
    List.takeWhile_append_of_pos hname, List.takeWhile_cons_of_neg (by simp), List.append_nil,
    String.ofList_toList]

theorem boundName?_decorator : boundName? decorator = none := by
  decide

theorem boundName?_bodyLine (statement : String) : boundName? (bodyLine statement) = none := by
  rw [boundName?, bodyLine, startsWith, String.toList_append]
  rfl

theorem defLine_ne_decorator (name parameters result : String) :
    defLine name parameters result ≠ decorator := by
  intro h
  have hlist := congrArg String.toList h
  rw [toList_defLine] at hlist
  cases hlist

theorem bodyLine_ne_decorator (statement : String) : bodyLine statement ≠ decorator := by
  intro h
  have hlist := congrArg String.toList h
  rw [bodyLine, String.toList_append] at hlist
  cases hlist

/-! ## Runs of statements -/

/-- Two runs of statements, the second with the names that the first has bound. -/
theorem keepsDecorator_append (bound first second : List String) :
    keepsDecorator bound (first ++ second) = (keepsDecorator bound first &&
      keepsDecorator (bound ++ first.filterMap boundName?) second) := by
  induction first generalizing bound with
  | nil => simp [keepsDecorator]
  | cons statement rest ih =>
      have hbound : (statement :: rest).filterMap boundName? =
          (boundName? statement).toList ++ rest.filterMap boundName? := by
        cases hname : boundName? statement <;> simp [hname]
      rw [List.cons_append, keepsDecorator, keepsDecorator, ih, hbound, Bool.and_assoc,
        List.append_assoc]

/-- Without decorators there is nothing to be found. -/
theorem keepsDecorator_of_forall_ne {statements : List String}
    (h : ∀ statement ∈ statements, statement ≠ decorator) (bound : List String) :
    keepsDecorator bound statements = true := by
  induction statements generalizing bound with
  | nil => rfl
  | cons statement rest ih =>
      rw [List.forall_mem_cons] at h
      simp [keepsDecorator, h.1, ih h.2]

/-- One accessor: the name must be free before it, and its own name is bound after it. -/
theorem keepsDecorator_accessor_append {a : Accessor} (h : '(' ∉ a.name.toList)
    (bound rest : List String) :
    keepsDecorator bound (accessor a ++ rest) = true ↔
      "property" ∉ bound ∧ keepsDecorator (bound ++ [a.name]) rest = true := by
  have hstatements : accessor a =
      [decorator, defLine a.name "self" a.className,
        bodyLine ("return " ++ a.className ++ "(self)")] := rfl
  have hbound : (accessor a).filterMap boundName? = [a.name] := by
    simp [hstatements, boundName?_decorator, boundName?_defLine h, boundName?_bodyLine]
  have hkeeps : keepsDecorator bound (accessor a) = !bound.contains "property" := by
    simp [hstatements, keepsDecorator, defLine_ne_decorator, bodyLine_ne_decorator]
  rw [keepsDecorator_append, hbound, hkeeps]
  simp

/-- Accessors in a row: the name must be free before the first of them, and none but the last may
bind it. -/
theorem keepsDecorator_accessors_iff {list : List Accessor}
    (h : ∀ a ∈ list, '(' ∉ a.name.toList) (bound : List String) :
    keepsDecorator bound (list.flatMap accessor) = true ↔
      (list = [] ∨ "property" ∉ bound) ∧ ∀ a ∈ list.dropLast, a.name ≠ "property" := by
  induction list generalizing bound with
  | nil => simp [keepsDecorator]
  | cons a rest ih =>
      rw [List.forall_mem_cons] at h
      rw [List.flatMap_cons, keepsDecorator_accessor_append h.1, ih h.2]
      cases rest with
      | nil => simp
      | cons next more =>
          -- the first accessor is not the last, so the next one has to do without its name
          rw [List.dropLast_cons_cons, List.forall_mem_cons]
          simp only [List.cons_ne_nil, false_or, List.mem_append, List.mem_singleton, not_or]
          constructor
          · rintro ⟨hbound, ⟨-, hname⟩, hmore⟩
            exact ⟨hbound, fun heq => hname heq.symm, hmore⟩
          · rintro ⟨hbound, hname, hmore⟩
            exact ⟨hbound, ⟨hbound, fun heq => hname heq.symm⟩, hmore⟩

/-! ## Classes -/

/-- The constructor is one function, which sets one attribute. -/
theorem exists_constructor_eq {ctor : Constructor} {built : List String}
    (h : constructor ctor = .ok built) :
    ∃ parameters statement, "self._".toList <+: statement.toList ∧
      built = [defLine "__init__" parameters "None", bodyLine statement] := by
  unfold constructor at h
  split at h
  · cases h
    exact ⟨_, _, by decide, rfl⟩
  · split at h
    · cases h
    · cases h
      refine ⟨_, _, ?_, rfl⟩
      rw [String.toList_append]
      exact (show "self._".toList <+: "self._url = ".toList by decide).trans
        (List.prefix_append _ _)

theorem methods_eq_ok_iff {list : List Method} {called : List String} :
    methods list = .ok called ↔ ∃ groups,
      List.Forall₂ (fun f group => method f = .ok group) list groups ∧ called = groups.flatten :=
  collected_eq_ok_iff (f := method) (g := methods) rfl fun _ _ => rfl

theorem classesStatements_eq_ok_iff {list : List ClassDecl} {all : List String} :
    classesStatements list = .ok all ↔ ∃ groups,
      List.Forall₂ (fun c group => classStatements c = .ok group) list groups ∧
        all = groups.flatten :=
  collected_eq_ok_iff (f := classStatements) (g := classesStatements) rfl fun _ _ => rfl

/-- Methods are not decorated. -/
theorem ne_decorator_of_methods {list : List Method} {called : List String}
    (h : methods list = .ok called) : ∀ statement ∈ called, statement ≠ decorator := by
  obtain ⟨groups, hgroups, rfl⟩ := methods_eq_ok_iff.mp h
  intro statement hmem
  obtain ⟨group, hgroup, hmem⟩ := List.mem_flatten.mp hmem
  obtain ⟨f, -, hf⟩ := exists_left_of_forall₂ hgroups hgroup
  obtain ⟨request, -, rfl⟩ := exceptMap_eq_ok_iff.mp hf
  rcases List.mem_pair.mp hmem with rfl | rfl
  · exact defLine_ne_decorator _ _ _
  · exact bodyLine_ne_decorator _

/-- The decorators of a class find the built-in function exactly if its name is free before the
class, and no accessor but the last binds it. -/
theorem keepsDecorator_classStatements {c : ClassDecl} {statements : List String}
    (hprint : classStatements c = .ok statements) (h : ∀ a ∈ c.accessors, '(' ∉ a.name.toList)
    (bound : List String) :
    keepsDecorator bound statements = true ↔
      (c.accessors = [] ∨ "property" ∉ bound) ∧
        ∀ a ∈ c.accessors.dropLast, a.name ≠ "property" := by
  obtain ⟨built, hbuilt, hprint⟩ := exceptBind_eq_ok_iff.mp hprint
  obtain ⟨called, hcalled, hprint⟩ := exceptBind_eq_ok_iff.mp hprint
  cases hprint
  obtain ⟨parameters, statement, -, rfl⟩ := exists_constructor_eq hbuilt
  have hopening : boundName? ("class " ++ c.name ++ ":") = none := by
    rw [boundName?, startsWith, String.append_assoc, String.toList_append]
    rfl
  have hplain : ("class " ++ c.name ++ ":") ≠ decorator := by
    intro heq
    have hlist := congrArg String.toList heq
    rw [String.append_assoc, String.toList_append] at hlist
    cases hlist
  -- up to the first accessor there is no decorator, and one name is bound
  generalize hhead : [("class " ++ c.name ++ ":"), defLine "__init__" parameters "None",
    bodyLine statement] = head
  have hbound : head.filterMap boundName? = ["__init__"] := by
    have hinit : boundName? (defLine "__init__" parameters "None") = some "__init__" :=
      boundName?_defLine (by decide) parameters "None"
    simp [← hhead, hopening, hinit, boundName?_bodyLine]
  have hfree : ∀ line ∈ head, line ≠ decorator := by
    simp [← hhead, hplain, defLine_ne_decorator, bodyLine_ne_decorator]
  have hname : "property" ∉ bound ++ ["__init__"] ↔ "property" ∉ bound := by simp
  rw [keepsDecorator_append, keepsDecorator_append, keepsDecorator_of_forall_ne hfree,
    keepsDecorator_of_forall_ne (ne_decorator_of_methods hcalled), hbound, Bool.true_and,
    Bool.and_true, keepsDecorator_accessors_iff h, hname]

/-- Every class of a module that is printed has its statements. -/
theorem exists_classStatements {list : List ClassDecl} {all : List String}
    (h : classesStatements list = .ok all) {c : ClassDecl} (hc : c ∈ list) :
    ∃ statements, classStatements c = .ok statements := by
  obtain ⟨groups, hgroups, -⟩ := classesStatements_eq_ok_iff.mp h
  obtain ⟨statements, -, hstatements⟩ := exists_right_of_forall₂ hgroups hc
  exact ⟨statements, hstatements⟩

end PythonText
end Source

namespace Assembly

open Naming Source PythonText

/-- The names that a source binds above a class: those of the header, and the classes before. -/
def boundAbove (before : List ClassDecl) : List String :=
  ["annotations", "quote", "requests", "_path"] ++ before.map ClassDecl.name

/-- An accessor has the name of the decorator exactly if that is the only word of its set. -/
theorem identifier_eq_property_iff (name : String) :
    (styleOf .python).identifier name = "property" ↔ smallWords name = ["property".toList] :=
  identifier_eq_iff_smallWords_eq (List.cons_ne_nil _ _) (by decide) (by decide)
    (by decide)

section Class

variable {asked : Option String} {root : Schema.Entries} {members : List Schema.Member}
  {config : Config} {client : Client} {m : Module}

/-- The name of the decorator is bound above a class exactly if the root class has it and stands
above. -/
theorem Assembles.property_mem_boundAbove_iff (h : Assembles .python config client m)
    (hclient : Schema.BindsClient asked root members client) (i : Nat) :
    "property" ∈ boundAbove (m.classes.take i) ↔ i ≠ 0 ∧ client.className = "property" := by
  have hheader : "property" ∉ ["annotations", "quote", "requests", "_path"] := by decide
  rw [boundAbove, List.mem_append, or_iff_right hheader, List.mem_map]
  constructor
  · rintro ⟨c, hc, hname⟩
    have hmem := List.mem_of_mem_take hc
    have htaken : c.name ∈ takenNames .python := by
      rw [hname]
      decide
    have hroot := h.isRoot_of_name_mem_takenNames hclient hmem htaken
    refine ⟨?_, (h.name_eq_of_isRoot hmem hroot).symm.trans hname⟩
    rintro rfl
    cases hc
  · rintro ⟨hi, hname⟩
    obtain ⟨first, rest, heq, hfirst, -, -⟩ := h.exists_classes_eq_cons
    obtain ⟨j, rfl⟩ := Nat.exists_eq_succ_of_ne_zero hi
    refine ⟨first, ?_, ?_⟩
    · rw [heq, List.take_succ_cons]
      exact List.mem_cons_self
    · rw [h.name_eq_of_isRoot (heq ▸ List.mem_cons_self) hfirst, hname]

end Class

open Schema in
/-- The class body of a set keeps its decorators exactly if no nested set but the last has the name
of the decorator as its only word.  From the top of the source on they are found exactly if, besides,
no class above has that name, which only the root class can have. -/
theorem keepsDecorator_iff {document : Value} {asked : Option String} {config : Config}
    {client : Client} {m : Module} {code : String} {i : Nat} {names : List String} {set : ApiSet}
    {c : ClassDecl} (hbind : (bindDocument document asked).result = .ok client)
    (hassemble : assemble .python config client = .ok m) (hrender : render m = .ok code)
    (hset : (client.root.visits [])[i]? = some (names, set)) (hclass : m.classes[i]? = some c) :
    ∃ statements, classStatements c = .ok statements ∧
      (keepsDecorator [] statements = true ↔
        ∀ s ∈ set.sets.dropLast, smallWords s.name ≠ ["property".toList]) ∧
      (keepsDecorator (boundAbove (m.classes.take i)) statements = true ↔
        keepsDecorator [] statements = true ∧
          (set.sets = [] ∨ i = 0 ∨ client.className ≠ "property")) := by
  obtain ⟨root, members, -, hclient⟩ := bindDocument_eq_ok_iff.mp hbind
  have hm := assemble_eq_ok_iff.mp hassemble
  have hbuilds := of_forall₂_getElem? hm.classes hset hclass
  -- the class is printed, since the whole source is
  rw [render, hm.language_eq] at hrender
  obtain ⟨all, hall, -⟩ := exceptMap_eq_ok_iff.mp hrender
  obtain ⟨statements, hstatements⟩ := exists_classStatements hall (List.mem_of_getElem? hclass)
  have hplain : ∀ a ∈ c.accessors, '(' ∉ a.name.toList := by
    intro a ha hmem
    rw [hbuilds.accessors_eq] at ha
    obtain ⟨s, hs, rfl⟩ := List.mem_map.mp ha
    rw [name_accessorOf] at hmem
    have hname := (names_of_visit hclient (List.mem_of_getElem? hset)).1 s hs
    have hchar := isIdentifierChar_of_mem_identifier hname hmem
    revert hchar
    decide
  have hkeeps := keepsDecorator_classStatements hstatements hplain
  have hempty : c.accessors = [] ↔ set.sets = [] := by
    rw [hbuilds.accessors_eq, List.map_eq_nil_iff]
  have hnames : (∀ a ∈ c.accessors.dropLast, a.name ≠ "property") ↔
      ∀ s ∈ set.sets.dropLast, smallWords s.name ≠ ["property".toList] := by
    rw [hbuilds.accessors_eq, ← List.map_dropLast, List.forall_mem_map]
    refine forall₂_congr fun s _ => not_congr ?_
    rw [name_accessorOf]
    exact identifier_eq_property_iff s.name
  refine ⟨statements, hstatements, ?_, ?_⟩
  · rw [hkeeps, hnames]
    simp
  · have habove : "property" ∉ boundAbove (m.classes.take i) ↔
        i = 0 ∨ client.className ≠ "property" := by
      rw [hm.property_mem_boundAbove_iff hclient, not_and_or, not_not]
    rw [hkeeps, hkeeps, habove, hempty]
    simp only [List.not_mem_nil, not_false_iff, or_true, true_and]
    exact and_comm

/-- A set with the name of the decorator, after all others. -/
def lastDocument : Value :=
  .map
    [(.str "~users", .map [(.str "$url", .str "/u")]),
     (.str "~Property", .map [(.str "$url", .str "/p")]),
     (.str "property-list", .null)]

theorem keepsDecorator_iff_last : ∃ client m code c,
    (Schema.bindDocument lastDocument (some "property")).result = .ok client ∧
      assemble .python {} client = .ok m ∧ render m = .ok code ∧ m.classes[0]? = some c ∧
      c.accessors.map Accessor.name = ["users", "property"] ∧
      ∃ statements, classStatements c = .ok statements ∧
        (keepsDecorator [] statements = true ↔
          ∀ s ∈ client.root.sets.dropLast, smallWords s.name ≠ ["property".toList]) ∧
        (keepsDecorator (boundAbove (m.classes.take 0)) statements = true ↔
          keepsDecorator [] statements = true ∧
            (client.root.sets = [] ∨ 0 = 0 ∨ client.className ≠ "property")) := by
  obtain ⟨client, hbind, hclient⟩ := exists_eq_ok_of_any
    (x := (Schema.bindDocument lastDocument (some "property")).result)
    (p := fun client => (assemble .python {} client).toOption.any fun m =>
      (render m).toOption.any fun _ => m.classes[0]?.any fun c =>
        c.accessors.map Accessor.name = ["users", "property"]) (by decide +kernel)
  obtain ⟨m, hassemble, hm⟩ := exists_eq_ok_of_any hclient
  obtain ⟨code, hrender, hfirst⟩ := exists_eq_ok_of_any hm
  obtain ⟨c, hc, hnames⟩ := (Option.any_eq_true _ _).mp hfirst
  have hroot : (client.root.visits [])[0]? = some ([], client.root) := by
    rw [ApiSet.visits_eq]
    rfl
  exact ⟨client, m, code, c, hbind, hassemble, hrender, hc, of_decide_eq_true hnames,
    keepsDecorator_iff hbind hassemble hrender hroot hc⟩

/-- A set with the name of the decorator, before another one. -/
def firstDocument : Value :=
  .map
    [(.str "~property", .map [(.str "$url", .str "/p")]),
     (.str "~users", .map [(.str "$url", .str "/u")])]

/-- The statements of its root class. -/
def firstStatements : List String :=
  ["class XSClient:",
   "    def __init__(self, url: str) -> None:",
   "        self._url = url",
   "    @property",
   "    def property(self) -> XSClientProperty:",
   "        return XSClientProperty(self)",
   "    @property",
   "    def users(self) -> XSClientUsers:",
   "        return XSClientUsers(self)"]

/-- The second decorator finds the accessor above it. -/
theorem exists_lost_firstDocument :
    (Pipeline.generate firstDocument {} .python none).2.isOk = true ∧ ∃ client m c,
      (Schema.bindDocument firstDocument none).result = .ok client ∧
      assemble .python {} client = .ok m ∧ c ∈ m.classes ∧
      classStatements c = .ok firstStatements ∧ keepsDecorator [] firstStatements = false := by
  refine ⟨by decide +kernel, ?_⟩
  obtain ⟨client, m, c, hbind, hassemble, hc, hstatements⟩ :=
    exists_class_of_any firstDocument none .python (classStatements · = .ok firstStatements)
      (by decide +kernel)
  exact ⟨client, m, c, hbind, hassemble, hc, of_decide_eq_true hstatements, by decide⟩

end Assembly
end ClientForge
