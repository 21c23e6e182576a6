import ClientForge.Proofs.Client.ClassTree
/-!
# Links between classes

An accessor names the class that it makes, and a class names its parent.  `WellLinked` says that the
classes of a module form the tree of the API sets; `wellLinked_of_assemble` shows it for every
module that can be assembled.

A class is named twice: its parent computes the name for an accessor before the class is built, and
the class computes it again.  What ties the two together is that the names nested in the visited
sets are, in another order, the names that lead to the visited sets below the root
(`perm_map_fst_visitsAll`).  So distinct class names make distinct targets.
-/

namespace ClientForge

namespace ApiSet

/-- The names that lead to the sets nested in a visited set. -/
def nestedNames (visit : List String × ApiSet) : List (List String) :=
  visit.2.sets.map fun child => visit.1 ++ [child.name]

mutual

/-- Every visit below a set is nested in exactly one visit. -/
theorem perm_map_fst_visitsAll : (set : ApiSet) → (names : List String) →
    ((set.visits names).flatMap nestedNames).Perm ((visitsAll names set.sets).map Prod.fst)
  | ⟨_, _, _, sets, _⟩, names => by
      rw [visits, List.flatMap_cons]
      exact perm_map_fst_visitsAll_append sets names

private theorem perm_map_fst_visitsAll_append : (sets : List ApiSet) → (names : List String) →
    (sets.map (fun child => names ++ [child.name]) ++
      (visitsAll names sets).flatMap nestedNames).Perm ((visitsAll names sets).map Prod.fst)
  | [], names => by
      rw [visitsAll]
      exact List.Perm.refl _
  | set :: rest, names => by
      have hset := perm_map_fst_visitsAll set (names ++ [set.name])
      have hrest := perm_map_fst_visitsAll_append rest names
      have hfirst : ((set.visits (names ++ [set.name])).map Prod.fst) =
          (names ++ [set.name]) :: (visitsAll (names ++ [set.name]) set.sets).map Prod.fst := by
        rw [visits_eq, List.map_cons]
      rw [visitsAll, List.map_cons, List.flatMap_append, List.map_append, hfirst, List.cons_append,
        List.cons_append]
      refine List.Perm.cons _ (List.Perm.trans ?_ (hset.append hrest))
      -- the sets nested in the first one move in front of its siblings
      rw [← List.append_assoc, ← List.append_assoc]
      exact List.Perm.append_right _ List.perm_append_comm

end

/-- The names that lead to a visit below a set end with the name of a set nested in another
visit. -/
theorem exists_outer_of_mem_visitsAll {names : List String} {set : ApiSet}
    {visit : List String × ApiSet} (h : visit ∈ visitsAll names set.sets) :
    ∃ outer ∈ set.visits names, ∃ child ∈ outer.2.sets, visit.1 = outer.1 ++ [child.name] := by
  have hmem : visit.1 ∈ (set.visits names).flatMap nestedNames :=
    (perm_map_fst_visitsAll set names).mem_iff.mpr (List.mem_map_of_mem h)
  obtain ⟨outer, houter, hnested⟩ := List.mem_flatMap.mp hmem
  obtain ⟨child, hchild, heq⟩ := List.mem_map.mp hnested
  exact ⟨outer, houter, child, hchild, heq.symm⟩

end ApiSet

namespace Assembly

open Naming

/-! ## Targets of accessors -/

namespace BuildsClass

variable {style : Style} {rootName : String} {names : List String} {ctor : Constructor}
  {set : ApiSet} {c : ClassDecl}

/-- The accessors of a class name the classes of the nested sets. -/
theorem map_className_accessors (h : BuildsClass style rootName names ctor set c) :
    c.accessors.map Accessor.className =
      (ApiSet.nestedNames (names, set)).map (className rootName) := by
  rw [h.accessors_eq, ApiSet.nestedNames, List.map_map, List.map_map]
  rfl

/-- No two members of a class have one identifier. -/
theorem nodup_members (h : BuildsClass style rootName names ctor set c) :
    (c.accessors.map Accessor.name ++ c.methods.map Method.name).Nodup := by
  have haccessors : c.accessors.map Accessor.name = setIdentifiers style set.sets := by
    rw [h.accessors_eq, List.map_map]
    rfl
  have hmethods : c.methods.map Method.name = actionIdentifiers style set.actions :=
    (map_eq_map_of_forall₂ h.methods fun _ _ hmethod => hmethod.name_eq.symm).symm
  rw [haccessors, hmethods]
  exact h.nodup

end BuildsClass

namespace Assembles

variable {language : Language} {config : Config} {client : Client} {m : Module}

/-- The root class comes first, and all others have a parent. -/
theorem exists_classes_eq_cons (h : Assembles language config client m) :
    ∃ first rest, m.classes = first :: rest ∧ first.isRoot = true ∧
      rest.map ClassDecl.name = (ApiSet.visitsAll [] client.root.sets).map
        (fun visit => className client.className visit.1) ∧
      ∀ c ∈ rest, c.isRoot = false := by
  have hclasses := h.classes
  rw [ApiSet.visits_eq] at hclasses
  obtain ⟨first, rest, hfirst, hrest, heq⟩ := List.forall₂_cons_left_iff.mp hclasses
  refine ⟨first, rest, heq, ?_, ?_, ?_⟩
  · rw [ClassDecl.isRoot, hfirst.constructor_eq]
    rfl
  · exact (map_eq_map_of_forall₂ hrest fun _ _ hdecl => hdecl.name_eq.symm).symm
  · intro c hc
    obtain ⟨visit, hvisit, hdecl⟩ := exists_left_of_forall₂ hrest hc
    obtain ⟨outer, -, child, -, hnames⟩ := ApiSet.exists_outer_of_mem_visitsAll hvisit
    rw [ClassDecl.isRoot, hdecl.constructor_eq, hnames, constructorAt_concat]
    rfl

/-- The targets of all accessors are the names of all classes but the root, in another order. -/
theorem perm_targets (h : Assembles language config client m) :
    ((m.classes.flatMap ClassDecl.accessors).map Accessor.className).Perm
      (m.classes.tail.map ClassDecl.name) := by
  obtain ⟨first, rest, heq, -, hnames, -⟩ := h.exists_classes_eq_cons
  have htargets : (m.classes.flatMap ClassDecl.accessors).map Accessor.className =
      ((client.root.visits []).flatMap ApiSet.nestedNames).map (className client.className) := by
    have hmap := map_eq_map_of_forall₂ h.classes fun _ _ hdecl => hdecl.map_className_accessors.symm
    rw [List.map_flatMap, List.map_flatMap, List.flatMap_def, List.flatMap_def, hmap]
  rw [htargets, heq, List.tail_cons, hnames, ← Function.comp_def, ← List.map_map]
  exact (ApiSet.perm_map_fst_visitsAll client.root []).map _

/-- The target of an accessor is one class, and its parent is the class with the accessor. -/
theorem exists_target (h : Assembles language config client m) {c : ClassDecl}
    (hc : c ∈ m.classes) {a : Accessor} (ha : a ∈ c.accessors) :
    ∃ target, m.classes.filter (·.name = a.className) = [target] ∧
      target.constructor.parentClass = some c.name := by
  obtain ⟨⟨names, set⟩, hvisit, hclass⟩ := exists_left_of_forall₂ h.classes hc
  rw [hclass.accessors_eq] at ha
  obtain ⟨child, hchild, rfl⟩ := List.mem_map.mp ha
  have hbelow := ApiSet.mem_visits_of_mem_sets hvisit hchild
  obtain ⟨target, htarget, hdecl⟩ := exists_right_of_forall₂ h.classes hbelow
  have hname : (accessorOf (styleOf language) client.className names child).className =
      target.name := hdecl.name_eq.symm
  refine ⟨target, ?_, ?_⟩
  · rw [hname]
    exact filter_eq_singleton_of_nodup (h.map_name ▸ h.nodup) htarget
  · rw [hdecl.constructor_eq, constructorAt_concat, hclass.name_eq]

/-- A class below the root is the target of one accessor in the whole module. -/
theorem exists_accessor (h : Assembles language config client m) {c : ClassDecl}
    (hc : c ∈ m.classes) (hroot : c.isRoot = false) :
    ∃ a, (m.classes.flatMap ClassDecl.accessors).filter (·.className = c.name) = [a] := by
  obtain ⟨first, rest, heq, hfirst, -, -⟩ := h.exists_classes_eq_cons
  have hnames : (m.classes.map ClassDecl.name).Nodup := h.map_name ▸ h.nodup
  have htargets : ((m.classes.flatMap ClassDecl.accessors).map Accessor.className).Nodup := by
    rw [h.perm_targets.nodup_iff, List.map_tail]
    exact hnames.tail
  have hmem : c.name ∈ (m.classes.flatMap ClassDecl.accessors).map Accessor.className := by
    rw [h.perm_targets.mem_iff, heq, List.tail_cons]
    rw [heq] at hc
    rcases List.mem_cons.mp hc with rfl | hrest
    · rw [hfirst] at hroot
      cases hroot
    · exact List.mem_map_of_mem hrest
  obtain ⟨a, ha, hname⟩ := List.mem_map.mp hmem
  refine ⟨a, ?_⟩
  rw [← hname]
  exact filter_eq_singleton_of_nodup htargets ha

end Assembles

/-! ## The tree of classes -/

/-- A class stands for an API set: it has its path, a method for each action and an accessor for
each nested set. -/
structure StandsFor (set : ApiSet) (c : ClassDecl) : Prop where
  path_eq : c.path = set.path.dotted
  methods_eq : c.methods.map Method.wireName = set.actions.map Action.name
  accessors_length : c.accessors.length = set.sets.length

theorem BuildsClass.standsFor {style : Style} {rootName : String} {names : List String}
    {ctor : Constructor} {set : ApiSet} {c : ClassDecl}
    (h : BuildsClass style rootName names ctor set c) : StandsFor set c where
  path_eq := h.path_eq
  methods_eq := (map_eq_map_of_forall₂ h.methods fun _ _ hmethod => hmethod.wireName_eq.symm).symm
  accessors_length := by rw [h.accessors_eq, List.length_map]

/-- The classes of a module form the tree of the API sets below a root. -/
structure WellLinked (root : ApiSet) (m : Module) : Prop where
  /-- One class for each API set, in depth-first pre-order. -/
  sets : List.Forall₂ (fun visit c => StandsFor visit.2 c) (root.visits []) m.classes
  names : (m.classes.map ClassDecl.name).Nodup
  /-- The first class has no parent, all others have one. -/
  root_first : ∃ first rest, m.classes = first :: rest ∧ first.isRoot = true ∧
    ∀ c ∈ rest, c.isRoot = false
  accessors : ∀ c ∈ m.classes, ∀ a ∈ c.accessors, ∃ target,
    m.classes.filter (·.name = a.className) = [target] ∧
      target.constructor.parentClass = some c.name
  targets : ∀ c ∈ m.classes, c.isRoot = false → ∃ a,
    (m.classes.flatMap ClassDecl.accessors).filter (·.className = c.name) = [a]
  members : ∀ c ∈ m.classes,
    (c.accessors.map Accessor.name ++ c.methods.map Method.name).Nodup
  parameters : ∀ c ∈ m.classes, ∀ f ∈ c.methods, (f.arguments.map Argument.name).Nodup

/-- Every module that can be assembled is well linked. -/
theorem wellLinked_of_assemble {language : Language} {config : Config} {client : Client}
    {m : Module} (h : assemble language config client = .ok m) : WellLinked client.root m := by
  have hm := assemble_eq_ok_iff.mp h
  obtain ⟨first, rest, heq, hfirst, -, hrest⟩ := hm.exists_classes_eq_cons
  refine ⟨?_, ?_, ⟨first, rest, heq, hfirst, hrest⟩, fun c hc a ha => hm.exists_target hc ha,
    fun c hc => hm.exists_accessor hc, ?_, ?_⟩
  · exact hm.classes.imp fun _ _ hclass => hclass.standsFor
  · rw [hm.map_name]
    exact hm.nodup
  · intro c hc
    obtain ⟨_, -, hclass⟩ := exists_left_of_forall₂ hm.classes hc
    exact hclass.nodup_members
  · intro c hc f hf
    obtain ⟨_, -, hclass⟩ := exists_left_of_forall₂ hm.classes hc
    obtain ⟨_, -, hmethod⟩ := exists_left_of_forall₂ hclass.methods hf
    exact hmethod.nodup_arguments

/-- Two branches whose sets share words, with an action named like a set elsewhere. -/
def branchingDocument : Value :=
  .map
    [(.str "~shop", .map
       [(.str "$url", .str "/s"),
        (.str "~item-list", .map [(.str "$url", .str "/i"), (.str "get", .null)])]),
     (.str "~item", .map [(.str "$url", .str "/i"), (.str "shop", .null)])]

theorem wellLinked_of_assemble_branching : ∃ client m,
    (Schema.bindDocument branchingDocument none).result = .ok client ∧
      assemble .python {} client = .ok m ∧
      m.classes.map ClassDecl.name =
        ["XSClient", "XSClientShop", "XSClientShopItemList", "XSClientItem"] ∧
      WellLinked client.root m := by
  obtain ⟨client, hbind, hclient⟩ := exists_eq_ok_of_any
    (x := (Schema.bindDocument branchingDocument none).result)
    (p := fun client => (assemble .python {} client).toOption.any fun m =>
      m.classes.map ClassDecl.name =
        ["XSClient", "XSClientShop", "XSClientShopItemList", "XSClientItem"]) (by decide +kernel)
  obtain ⟨m, hassemble, hnames⟩ := exists_eq_ok_of_any hclient
  exact ⟨client, m, hbind, hassemble, of_decide_eq_true hnames, wellLinked_of_assemble hassemble⟩

end Assembly
end ClientForge
