import ClientForge.Proofs.Client.Collision
import ClientForge.Proofs.Schema.Attribute
import ClientForge.Proofs.Schema.Reach
/-!
# Failures of assembly

Of the four reasons that assembly can give, three name a collision: two things of one kind, the
first before the second, with one identifier.  `Collision` says which two, and at which node the
failure is reported.  The fourth, a slot without a parameter, never arises for a client that was
bound from a document, since binding makes a parameter for every slot of a resolved URL, whichever
node the slot comes from (`slotsBound_of_visit`).

So assembly of a bound client fails exactly on collisions, and reports one at a node of the tree
(`assemble_bindDocument`).
-/

namespace ClientForge

/-- The members of a set by name and path, nested sets before actions. -/
def ApiSet.memberPaths (set : ApiSet) : List (String × KeyPath) :=
  set.sets.map (fun s => (s.name, s.path)) ++ set.actions.map fun a => (a.name, a.path)

namespace Assembly

open Naming Schema

/-! ## Parameters -/

/-- Two parameters, in this order, with one identifier. -/
def ParameterCollision (style : Style) (list : List Parameter) (cause : Cause) : Prop :=
  ∃ first second : Parameter, [first, second].Sublist list ∧
    style.identifier first.name = style.identifier second.name ∧
    cause = .parameterClash first.name second.name (style.identifier second.name)

/-- An element before and the next one stand in this order. -/
private theorem pair_sublist {α : Type} {a b : α} {before after : List α} (ha : a ∈ before) :
    [a, b].Sublist (before ++ b :: after) :=
  List.Sublist.append (List.singleton_sublist.mpr ha) ((List.nil_sublist after).cons_cons b)

theorem parameterCollision_of_arguments {style : Style} {ps : List Parameter} {cause : Cause}
    (earlier : List Parameter)
    (h : arguments style (earlier.map (argumentOf style)) ps = .error cause) :
    ParameterCollision style (earlier ++ ps) cause := by
  induction ps generalizing earlier with
  | nil => cases h
  | cons p rest ih =>
      cases hfind : (earlier.map (argumentOf style)).find?
          (·.name = (argumentOf style p).name) with
      | some argument =>
          simp only [arguments, hfind, Except.error.injEq] at h
          obtain ⟨first, hfirst, rfl⟩ := List.mem_map.mp (List.mem_of_find?_eq_some hfind)
          have hname : (argumentOf style first).name = (argumentOf style p).name := by
            simpa using List.find?_some hfind
          exact ⟨first, p, pair_sublist hfirst, hname, h.symm⟩
      | none =>
          simp only [arguments, hfind] at h
          rw [List.append_cons]
          apply ih
          rw [List.map_append]
          exact h

/-- Where every slot has a parameter, a method can fail on its parameters only. -/
theorem parameterCollision_of_method {style : Style} {depth : Nat} {a : Action} {cause : Cause}
    (hslots : SlotsBound a) (h : method style depth a = .error cause) :
    ParameterCollision style a.parameters cause := by
  cases harguments : arguments style [] a.parameters with
  | error other =>
      simp only [method, harguments, Except.error.injEq] at h
      subst h
      exact parameterCollision_of_arguments [] harguments
  | ok list =>
      have hnodup := (arguments_eq_ok_iff.mp harguments).2
      obtain ⟨m, hm⟩ := exists_buildsMethod_iff.mpr ⟨hnodup, hslots⟩
      rw [method_eq_ok_iff.mpr hm] at h
      cases h

/-! ## Members -/

/-- Two members, in this order, with one identifier; the failure is found at the second. -/
def MemberCollision (style : Style) (list : List (String × KeyPath)) (failure : Failure) : Prop :=
  ∃ first second : String × KeyPath, [first, second].Sublist list ∧
    style.identifier first.1 = style.identifier second.1 ∧
    failure = ⟨second.2, .memberClash (style.identifier second.1) first.2.dotted second.2.dotted⟩

/-- The claims that members make. -/
def claimsOf (style : Style) (list : List (String × KeyPath)) : Claims :=
  list.map fun member => (style.identifier member.1, member.2.dotted)

section Members

variable {style : Style} {failure : Failure}

/-- A member that can be claimed is one more of those that were. -/
theorem claims_of_claim {earlier : List (String × KeyPath)} {claims : Claims}
    (member : String × KeyPath)
    (h : claim (claimsOf style earlier) (style.identifier member.1) member.2.dotted = .ok claims) :
    claims = claimsOf style (earlier ++ [member]) := by
  rw [(claim_eq_ok_iff.mp h).2, claimsOf, claimsOf, List.map_append, List.map_singleton]

theorem memberCollision_of_claim {earlier : List (String × KeyPath)} {cause : Cause}
    (member : String × KeyPath) (rest : List (String × KeyPath))
    (h : claim (claimsOf style earlier) (style.identifier member.1) member.2.dotted =
      .error cause) :
    MemberCollision style (earlier ++ member :: rest) ⟨member.2, cause⟩ := by
  unfold claim at h
  cases hlookup : (claimsOf style earlier).lookup (style.identifier member.1) with
  | none => simp [hlookup] at h
  | some path =>
      simp only [hlookup, Except.error.injEq] at h
      obtain ⟨before, after, hclaims, -⟩ := List.lookup_eq_some_iff.mp hlookup
      have hmem : (style.identifier member.1, path) ∈ claimsOf style earlier := by
        rw [hclaims]
        exact List.mem_append_right before List.mem_cons_self
      obtain ⟨first, hfirst, heq⟩ := List.mem_map.mp hmem
      obtain ⟨hname, rfl⟩ := Prod.mk.inj heq
      exact ⟨first, member, pair_sublist hfirst, hname, by rw [← h]⟩

/-- Nested sets fail on each other, or on members claimed before; more may follow. -/
theorem memberCollision_of_accessors {rootName : String} {names : List String} {sets : List ApiSet}
    (earlier more : List (String × KeyPath))
    (h : accessors style rootName names (claimsOf style earlier) sets = .error failure) :
    MemberCollision style (earlier ++ (sets.map (fun s => (s.name, s.path)) ++ more)) failure := by
  induction sets generalizing earlier with
  | nil => cases h
  | cons set rest ih =>
      rw [accessors] at h
      cases hclaim : claim (claimsOf style earlier) (style.identifier set.name)
          set.path.dotted with
      | error cause =>
          simp only [hclaim, Except.error.injEq] at h
          subst h
          exact memberCollision_of_claim (set.name, set.path) _ hclaim
      | ok claims =>
          simp only [hclaim, exceptMap_eq_error_iff] at h
          rw [claims_of_claim (set.name, set.path) hclaim] at h
          rw [List.map_cons, List.cons_append, List.append_cons]
          exact ih (earlier ++ [(set.name, set.path)]) h

/-- Actions fail on a member claimed before, or one of them has no method. -/
theorem collision_of_methods {depth : Nat} {actions : List Action}
    (earlier : List (String × KeyPath))
    (h : methods style depth (claimsOf style earlier) actions = .error failure) :
    MemberCollision style (earlier ++ actions.map fun a => (a.name, a.path)) failure ∨
      ∃ a ∈ actions, failure.path = a.path ∧ method style depth a = .error failure.cause := by
  induction actions generalizing earlier with
  | nil => cases h
  | cons a rest ih =>
      rw [methods] at h
      cases hclaim : claim (claimsOf style earlier) (style.identifier a.name) a.path.dotted with
      | error cause =>
          simp only [hclaim, Except.error.injEq] at h
          subst h
          exact Or.inl (memberCollision_of_claim (a.name, a.path) _ hclaim)
      | ok claims =>
          simp only [hclaim] at h
          cases hmethod : method style depth a with
          | error cause =>
              simp only [hmethod, Except.error.injEq] at h
              subst h
              exact Or.inr ⟨a, List.mem_cons_self, rfl, hmethod⟩
          | ok m =>
              simp only [hmethod, exceptMap_eq_error_iff] at h
              rw [claims_of_claim (a.name, a.path) hclaim] at h
              rw [List.map_cons, List.append_cons]
              rcases ih (earlier ++ [(a.name, a.path)]) h with hmember | ⟨b, hb, hfail⟩
              · exact Or.inl hmember
              · exact Or.inr ⟨b, List.mem_cons_of_mem a hb, hfail⟩

end Members

/-! ## Classes -/

/-- What a failure of assembly reports, and where: two things of one kind in their order, with one
identifier. -/
inductive Collision (style : Style) (client : Client) : Failure → Prop
  | classes {first second : List String × ApiSet}
      (order : [first, second].Sublist (client.root.visits []))
      (same : className client.className first.1 = className client.className second.1) :
      Collision style client
        ⟨second.2.path, .classClash (className client.className second.1) first.2.path.dotted⟩
  | members {visit : List String × ApiSet} {failure : Failure}
      (visited : visit ∈ client.root.visits [])
      (collision : MemberCollision style visit.2.memberPaths failure) :
      Collision style client failure
  | parameters {visit : List String × ApiSet} {a : Action} {cause : Cause}
      (visited : visit ∈ client.root.visits []) (mem : a ∈ visit.2.actions)
      (collision : ParameterCollision style a.parameters cause) :
      Collision style client ⟨a.path, cause⟩

/-- One class fails on the classes before it, on its members or on the parameters of one. -/
theorem collision_of_classDecl {style : Style} {rootName : String} {names : List String}
    {ctor : Constructor} {done : List ClassDecl} {set : ApiSet} {failure : Failure}
    (hslots : ∀ a ∈ set.actions, SlotsBound a)
    (h : classDecl style rootName names ctor done set = .error failure) :
    (∃ other ∈ done, other.name = className rootName names ∧
      failure = ⟨set.path, .classClash (className rootName names) other.path⟩) ∨
    MemberCollision style set.memberPaths failure ∨
    ∃ a ∈ set.actions, failure.path = a.path ∧
      ParameterCollision style a.parameters failure.cause := by
  cases hfind : done.find? (·.name = className rootName names) with
  | some other =>
      simp only [classDecl, hfind, Except.error.injEq] at h
      have hname : other.name = className rootName names := by
        simpa using List.find?_some hfind
      exact Or.inl ⟨other, List.mem_of_find?_eq_some hfind, hname, h.symm⟩
  | none =>
      right
      simp only [classDecl, hfind] at h
      cases haccessors : accessors style rootName names [] set.sets with
      | error other =>
          simp only [haccessors, Except.error.injEq] at h
          subst h
          exact Or.inl (memberCollision_of_accessors [] _ haccessors)
      | ok pair =>
          obtain ⟨list, claims⟩ := pair
          simp only [haccessors, exceptMap_eq_error_iff] at h
          -- the actions meet the claims of the nested sets, and those only
          have hclaims : claims = claimsOf style (set.sets.map fun s => (s.name, s.path)) := by
            rw [(accessors_eq_ok_iff.mp haccessors).2.1, List.nil_append, setClaims, claimsOf,
              List.map_map]
            rfl
          rw [hclaims] at h
          rcases collision_of_methods _ h with hmember | ⟨a, ha, hpath, hmethod⟩
          · exact Or.inl hmember
          · exact Or.inr ⟨a, ha, hpath, parameterCollision_of_method (hslots a ha) hmethod⟩

/-- A run fails at one visit, with the classes of all visits before it. -/
theorem exists_classDecl_of_run {style : Style} {rootName : String} {top : Constructor}
    {done : List ClassDecl} {list : List (List String × ApiSet)} {failure : Failure}
    (h : run style rootName top done list = .error failure) :
    ∃ before visit after decls, list = before ++ visit :: after ∧
      List.Forall₂ (fun visit decl => BuildsClass style rootName visit.1
        (constructorAt rootName top visit.1) visit.2 decl) before decls ∧
      classDecl style rootName visit.1 (constructorAt rootName top visit.1) (done ++ decls)
        visit.2 = .error failure := by
  induction list generalizing done with
  | nil => cases h
  | cons visit rest ih =>
      obtain ⟨names, set⟩ := visit
      rw [run] at h
      cases hdecl : classDecl style rootName names (constructorAt rootName top names) done set with
      | error other =>
          simp only [hdecl, Except.error.injEq] at h
          subst h
          refine ⟨[], (names, set), rest, [], rfl, List.Forall₂.nil, ?_⟩
          rw [List.append_nil]
          exact hdecl
      | ok decl =>
          simp only [hdecl] at h
          obtain ⟨before, visit, after, decls, rfl, hbefore, hfail⟩ := ih h
          have hbuilds := (classDecl_eq_ok_iff.mp hdecl).2
          refine ⟨(names, set) :: before, visit, after, decl :: decls, rfl,
            List.Forall₂.cons hbuilds hbefore, ?_⟩
          rw [List.append_cons]
          exact hfail

/-- If every slot has a parameter, a client that cannot be assembled has a collision. -/
theorem collision_of_assemble {language : Language} {config : Config} {client : Client}
    {failure : Failure}
    (hslots : ∀ visit ∈ client.root.visits [], ∀ a ∈ visit.2.actions, SlotsBound a)
    (h : assemble language config client = .error failure) :
    Collision (styleOf language) client failure := by
  have hrun := classes_eq_run (styleOf language) client.className (rootConstructor client.url) []
    [] client.root
  unfold assemble at h
  rw [exceptMap_eq_error_iff] at h
  obtain ⟨before, visit, after, decls, hvisits, hbefore, hfail⟩ :=
    exists_classDecl_of_run (hrun ▸ h)
  have hvisit : visit ∈ client.root.visits [] := by
    rw [hvisits]
    exact List.mem_append_right before List.mem_cons_self
  rcases collision_of_classDecl (hslots visit hvisit) hfail with
    ⟨other, hother, hname, rfl⟩ | hmember | ⟨a, ha, hpath, hparameter⟩
  · obtain ⟨first, hfirst, hbuilds⟩ := exists_left_of_forall₂ hbefore hother
    rw [hbuilds.path_eq]
    refine Collision.classes ?_ (hbuilds.name_eq.symm.trans hname)
    rw [hvisits]
    exact pair_sublist hfirst
  · exact Collision.members hvisit hmember
  · obtain ⟨path, cause⟩ := failure
    dsimp only at hpath hparameter
    subst hpath
    exact Collision.parameters hvisit ha hparameter

/-- A collision is reported at a set or an action of the tree. -/
theorem Collision.exists_node {style : Style} {client : Client} {failure : Failure}
    (h : Collision style client failure) : ∃ visit ∈ client.root.visits [],
      failure.path = visit.2.path ∨ ∃ a ∈ visit.2.actions, failure.path = a.path := by
  cases h with
  | classes order same =>
      exact ⟨_, order.subset (List.mem_cons_of_mem _ List.mem_cons_self), Or.inl rfl⟩
  | @members visit _ visited collision =>
      obtain ⟨first, second, order, -, rfl⟩ := collision
      have hsecond := order.subset (List.mem_cons_of_mem _ List.mem_cons_self)
      rcases List.mem_append.mp hsecond with hset | haction
      · obtain ⟨child, hchild, rfl⟩ := List.mem_map.mp hset
        exact ⟨_, ApiSet.mem_visits_of_mem_sets visited hchild, Or.inl rfl⟩
      · obtain ⟨a, ha, rfl⟩ := List.mem_map.mp haction
        exact ⟨visit, visited, Or.inr ⟨a, ha, rfl⟩⟩
  | parameters visited mem collision => exact ⟨_, visited, Or.inr ⟨_, mem, rfl⟩⟩

/-- A collision is never a slot without a parameter. -/
theorem Collision.cause_ne_unboundSlot {style : Style} {client : Client} {failure : Failure}
    (h : Collision style client failure) (name : String) : failure.cause ≠ .unboundSlot name := by
  cases h with
  | classes order same => simp
  | members visited collision =>
      obtain ⟨first, second, -, -, rfl⟩ := collision
      simp
  | parameters visited mem collision =>
      obtain ⟨first, second, -, -, rfl⟩ := collision
      simp

/-! ## Bound clients -/

/-- Binding makes a parameter for every slot of the URL, own or inherited. -/
theorem slotsBound_of_bindsAction {enclosing : List Scope} {name : String} {path : KeyPath}
    {entries : Entries} {a : Action} (h : BindsAction enclosing name path entries a) :
    SlotsBound a := by
  intro slot type hslot
  have hmem : (slot, type) ∈ a.url.slots := List.mem_filterMap.mpr ⟨_, hslot, rfl⟩
  have hpath : slot ∈ a.pathParams.map Parameter.name :=
    (mem_names_collectPathParams h.pathParams slot).mpr (List.mem_map_of_mem hmem)
  rw [Action.parameters, List.append_assoc, List.map_append]
  exact List.mem_append_left _ hpath

theorem slotsBound_of_visit {document : Value} {asked : Option String} {client : Client}
    (h : (bindDocument document asked).result = .ok client) :
    ∀ visit ∈ client.root.visits [], ∀ a ∈ visit.2.actions, SlotsBound a := by
  intro visit hvisit a ha
  obtain ⟨entries, members, rfl, hclient⟩ := bindDocument_eq_ok_iff.mp h
  obtain ⟨_, _, _, _, _, _, -, hset, -, -⟩ := exists_reaches_of_visit hclient hvisit
  obtain ⟨_, _, -, -, -, haction⟩ := exists_mem_of_action hset.nested (hset.actions_eq ▸ ha)
  exact slotsBound_of_bindsAction haction

/-- A bound client can be assembled exactly if no two classes, no two members of a set and no two
parameters of an action get one name.  Otherwise the failure is such a collision, found at a set or
an action of the bound tree. -/
theorem assemble_bindDocument {document : Value} {asked : Option String} {client : Client}
    (hbind : (bindDocument document asked).result = .ok client) (language : Language)
    (config : Config) :
    ((∃ m, assemble language config client = .ok m) ↔
      ((client.root.visits []).map fun visit => className client.className visit.1).Nodup ∧
      ∀ visit ∈ client.root.visits [], Distinct (styleOf language) visit.2) ∧
    ∀ failure, assemble language config client = .error failure →
      Collision (styleOf language) client failure ∧
      failure.diagnostic.kind = .duplicateName ∧
      (∀ name, failure.cause ≠ .unboundSlot name) ∧
      ∃ visit ∈ client.root.visits [],
        failure.path = visit.2.path ∨ ∃ a ∈ visit.2.actions, failure.path = a.path := by
  have hslots := slotsBound_of_visit hbind
  constructor
  · rw [exists_assemble_iff]
    constructor
    · rintro ⟨hnodup, hvisits⟩
      exact ⟨hnodup, fun visit hvisit => (hvisits visit hvisit).1⟩
    · rintro ⟨hnodup, hvisits⟩
      exact ⟨hnodup, fun visit hvisit => ⟨hvisits visit hvisit, hslots visit hvisit⟩⟩
  · intro failure h
    have hcollision := collision_of_assemble hslots h
    exact ⟨hcollision, rfl, hcollision.cause_ne_unboundSlot, hcollision.exists_node⟩

/-- Two ways of words to one class name. -/
def ambiguousDocument : Value :=
  .map
    [(.str "~item-list", .map [(.str "$url", .str "/l/<id>"), (.str "get", .null)]),
     (.str "~item", .map
       [(.str "$url", .str "/i"),
        (.str "~list", .map [(.str "$url", .str "$\x7b!super\x7d/<id>"), (.str "get", .null)])])]

theorem assemble_bindDocument_ambiguous : ∃ client failure,
    (bindDocument ambiguousDocument none).result = .ok client ∧
      assemble .python {} client = .error failure ∧
      failure = ⟨["~item", "~list"], .classClash "XSClientItemList" "~item-list"⟩ ∧
      Collision (styleOf .python) client failure ∧
      ¬(((client.root.visits []).map fun visit => className client.className visit.1).Nodup ∧
        ∀ visit ∈ client.root.visits [], Distinct (styleOf .python) visit.2) := by
  obtain ⟨client, hbind, hclient⟩ := exists_eq_ok_of_any
    (x := (bindDocument ambiguousDocument none).result)
    (p := fun client => assemble .python {} client =
      .error ⟨["~item", "~list"], .classClash "XSClientItemList" "~item-list"⟩) (by decide +kernel)
  have hfail := of_decide_eq_true hclient
  obtain ⟨hiff, hfailure⟩ := assemble_bindDocument hbind .python {}
  refine ⟨client, _, hbind, hfail, rfl, (hfailure _ hfail).1, ?_⟩
  intro hdistinct
  obtain ⟨m, hm⟩ := hiff.mpr hdistinct
  rw [hfail] at hm
  cases hm

end Assembly
end ClientForge
