import ClientForge.Proofs.Session
import ClientForge.Schema.TreeStep
import Mathlib.Data.List.Basic
/-!
# Links of a context tree

Contexts stand in one list and name their parents by position.  `WellLinked` says that the names are
right: a context has its own position as index, only the first has no parent, and every other parent
stands earlier.  Links therefore lead up to the first context (`climbs_ancestors`), and the bound on
the number of steps in `ancestorsFrom` is never reached (`ancestors_eq_cons`).

A step either is refused and leaves the tree alone, or does what `Granted` says (`run_cases`).  So
all links stay right in every sequence of steps, whatever is refused among them
(`eachStep_keeps_runAll`).
-/

namespace ClientForge

/-- A context without what it has resolved. -/
def Context.bare (c : Context) : Context :=
  { c with attributes := [] }

/-- A context with an attribute set. -/
def Context.assign (c : Context) (name : String) (value : Attribute) : Context :=
  { c with toScope := c.toScope.assign name value }

@[simp] theorem Context.assign_bare (c : Context) (name : String) (value : Attribute) :
    (c.assign name value).bare = c.bare := rfl

namespace ContextTree

/-- Every context stands at its index, only the first one has no parent, and the parent of any other
stands before it. -/
structure WellLinked (t : ContextTree) : Prop where
  index_eq : ∀ {i : Nat} {c : Context}, t.contexts[i]? = some c → c.index = i
  parent_eq_none_iff : ∀ {i : Nat} {c : Context}, t.contexts[i]? = some c →
    (c.parent = none ↔ i = 0)
  parent_lt : ∀ {i j : Nat} {c : Context}, t.contexts[i]? = some c → c.parent = some j → j < i

theorem wellLinked_empty : WellLinked {} where
  index_eq h := by simp at h
  parent_eq_none_iff h := by simp at h
  parent_lt h := by simp at h

section Linked

variable {t : ContextTree}

/-- One more context keeps the links right if it is the first or its parent is there. -/
theorem WellLinked.append (h : t.WellLinked) (scope : Scope) {parent : Option Nat}
    (hfirst : parent = none ↔ t.size = 0) (hparent : ∀ j, parent = some j → j < t.size) :
    WellLinked ⟨t.contexts ++ [t.contextFor scope parent]⟩ := by
  have hcases : ∀ {i : Nat} {c : Context},
      (t.contexts ++ [t.contextFor scope parent])[i]? = some c →
      t.contexts[i]? = some c ∨ i = t.size ∧ c = t.contextFor scope parent := by
    intro i c hc
    rw [List.getElem?_append] at hc
    split at hc
    · exact Or.inl hc
    · rename_i hi
      obtain ⟨hlt, heq⟩ := List.getElem?_eq_some_iff.mp hc
      have hsize : i = t.size := by
        unfold size
        simp only [List.length_singleton] at hlt
        omega
      refine Or.inr ⟨hsize, ?_⟩
      simpa using heq.symm
  refine ⟨?_, ?_, ?_⟩
  · intro i c hc
    rcases hcases hc with hc | ⟨rfl, rfl⟩
    · exact h.index_eq hc
    · rfl
  · intro i c hc
    rcases hcases hc with hc | ⟨rfl, rfl⟩
    · exact h.parent_eq_none_iff hc
    · exact hfirst
  · intro i j c hc hj
    rcases hcases hc with hc | ⟨rfl, rfl⟩
    · exact h.parent_lt hc hj
    · exact hparent j hj

/-- A context at another place or with other attributes. -/
theorem getElem?_assign (t : ContextTree) (index : Nat) (name : String) (value : Attribute)
    (i : Nat) :
    (t.assign index name value).contexts[i]? =
      t.contexts[i]?.map fun c => if index = i then c.assign name value else c := by
  unfold assign
  rw [List.getElem?_modify]
  rfl

/-- Attributes have no part in the links. -/
theorem WellLinked.assign (h : t.WellLinked) (index : Nat) (name : String) (value : Attribute) :
    (t.assign index name value).WellLinked := by
  have hcases : ∀ {i : Nat} {c : Context}, (t.assign index name value).contexts[i]? = some c →
      ∃ c', t.contexts[i]? = some c' ∧ c.index = c'.index ∧ c.parent = c'.parent := by
    intro i c hc
    rw [getElem?_assign] at hc
    obtain ⟨c', hc', rfl⟩ := Option.map_eq_some_iff.mp hc
    refine ⟨c', hc', ?_⟩
    split
    · exact ⟨rfl, rfl⟩
    · exact ⟨rfl, rfl⟩
  refine ⟨?_, ?_, ?_⟩
  · intro i c hc
    obtain ⟨c', hc', hindex, -⟩ := hcases hc
    rw [hindex]
    exact h.index_eq hc'
  · intro i c hc
    obtain ⟨c', hc', -, hparent⟩ := hcases hc
    rw [hparent]
    exact h.parent_eq_none_iff hc'
  · intro i j c hc hj
    obtain ⟨c', hc', -, hparent⟩ := hcases hc
    rw [hparent] at hj
    exact h.parent_lt hc' hj

/-! ## The way up -/

/-- The contexts on the way up from a context, link by link, until there is no further link. -/
inductive Climbs (t : ContextTree) : Context → List Context → Prop
  | top {c : Context} (none_above : c.parent = none) : Climbs t c []
  | up {c above : Context} {index : Nat} {list : List Context} (link : c.parent = some index)
      (found : t.contexts[index]? = some above) (rest : Climbs t above list) :
      Climbs t c (above :: list)

@[simp] theorem ancestorsFrom_none (t : ContextTree) (steps : Nat) :
    t.ancestorsFrom steps none = [] := by
  cases steps with
  | zero => rfl
  | succ steps => rfl

/-- More steps than the position of the next context are more than enough. -/
private theorem ancestorsFrom_of_lt (h : t.WellLinked) {i steps steps' : Nat} (hi : i < steps)
    (hi' : i < steps') : t.ancestorsFrom steps (some i) = t.ancestorsFrom steps' (some i) := by
  induction steps generalizing i steps' with
  | zero => omega
  | succ steps ih =>
      obtain ⟨steps', rfl⟩ : ∃ n, steps' = n + 1 := ⟨steps' - 1, by omega⟩
      unfold ancestorsFrom
      cases hc : t.contexts[i]? with
      | none => rfl
      | some c =>
          cases hparent : c.parent with
          | none => simp only [hparent, ancestorsFrom_none]
          | some j =>
              have hj : j < i := h.parent_lt hc hparent
              simp only [hparent]
              rw [ih (by omega) (by omega : j < steps')]

theorem ancestors_eq_nil {c : Context} (hparent : c.parent = none) : t.ancestors c = [] := by
  unfold ancestors
  rw [hparent, ancestorsFrom_none]

/-- The parent of a context is there. -/
theorem WellLinked.exists_parent (h : t.WellLinked) {i j : Nat} {c : Context}
    (hc : t.contexts[i]? = some c) (hparent : c.parent = some j) :
    ∃ above, t.contexts[j]? = some above := by
  obtain ⟨hlt, -⟩ := List.getElem?_eq_some_iff.mp hc
  have hj : j < t.contexts.length := by
    have hji : j < i := h.parent_lt hc hparent
    omega
  exact ⟨_, List.getElem?_eq_getElem hj⟩

/-- Above a context stand its parent and what is above the parent. -/
theorem WellLinked.ancestors_eq_cons (h : t.WellLinked) {i j : Nat} {c above : Context}
    (hc : t.contexts[i]? = some c) (hparent : c.parent = some j)
    (habove : t.contexts[j]? = some above) : t.ancestors c = above :: t.ancestors above := by
  obtain ⟨hi, -⟩ := List.getElem?_eq_some_iff.mp hc
  have hji : j < i := h.parent_lt hc hparent
  have hunfold : t.ancestors c = above :: t.ancestorsFrom (t.size - 1) above.parent := by
    obtain ⟨n, hn⟩ : ∃ n, t.size = n + 1 := ⟨t.size - 1, by unfold size; omega⟩
    unfold ancestors
    rw [hn, hparent, ancestorsFrom, habove]
    rfl
  rw [hunfold]
  -- both sides now look above the parent, with different bounds on the steps
  cases hup : above.parent with
  | none => rw [ancestorsFrom_none, ancestors_eq_nil hup]
  | some k =>
      have hkj : k < j := h.parent_lt habove hup
      unfold ancestors
      have hsize : i < t.size := hi
      have hbound : t.ancestorsFrom (t.size - 1) (some k) = t.ancestorsFrom t.size (some k) :=
        ancestorsFrom_of_lt h (by omega) (by omega)
      rw [hup, hbound]

/-- What holds of the contexts without a parent, and of every context of whose parent it holds,
holds of all. -/
theorem WellLinked.induction (h : t.WellLinked) {P : Nat → Context → Prop}
    (htop : ∀ c, t.contexts[0]? = some c → c.parent = none → P 0 c)
    (hup : ∀ i j c above, t.contexts[i]? = some c → c.parent = some j →
      t.contexts[j]? = some above → P j above → P i c)
    {i : Nat} {c : Context} (hc : t.contexts[i]? = some c) : P i c := by
  induction i using Nat.strongRecOn generalizing c with
  | _ i ih =>
      cases hparent : c.parent with
      | none =>
          obtain rfl : i = 0 := (h.parent_eq_none_iff hc).mp hparent
          exact htop c hc hparent
      | some j =>
          obtain ⟨above, habove⟩ := h.exists_parent hc hparent
          exact hup i j c above hc hparent habove (ih j (h.parent_lt hc hparent) habove)

/-- The links above a context are what `ancestors` lists, and they end at the first context. -/
theorem WellLinked.climbs_ancestors (h : t.WellLinked) {i : Nat} {c : Context}
    (hc : t.contexts[i]? = some c) :
    t.Climbs c (t.ancestors c) ∧ (c :: t.ancestors c).getLast? = t.contexts[0]? := by
  refine h.induction (P := fun _ c => t.Climbs c (t.ancestors c) ∧
    (c :: t.ancestors c).getLast? = t.contexts[0]?) ?_ ?_ hc
  · intro c hc hparent
    rw [ancestors_eq_nil hparent, hc]
    exact ⟨Climbs.top hparent, rfl⟩
  · rintro i j c above hc hparent habove ⟨hclimbs, hlast⟩
    rw [h.ancestors_eq_cons hc hparent habove]
    refine ⟨Climbs.up hparent habove hclimbs, ?_⟩
    rw [List.getLast?_cons_cons]
    exact hlast

end Linked

/-- Only the first context is added without a parent. -/
theorem add_eq_ok {t next : ContextTree} {scope : Scope} {parent : Option Nat}
    (h : t.add scope parent = .ok next) :
    (parent = none → t.contexts = []) ∧ next = ⟨t.contexts ++ [t.contextFor scope parent]⟩ := by
  unfold add at h
  split at h
  · cases h
  · rename_i hallowed
    refine ⟨?_, (Except.ok.inj h).symm⟩
    rintro rfl
    simpa using hallowed

end ContextTree

namespace Schema

open ContextTree (WellLinked)

/-! ## Steps -/

/-- Whether a step only reads. -/
def TreeStep.isRead : TreeStep → Bool
  | .add .. => false
  | .assign .. => false
  | _ => true

/-- What a step does to a tree if it is not refused: a new context comes last, below the context
that was asked for, and only the first without one; an attribute is set on one context; nothing
else changes anything. -/
inductive Granted (t : ContextTree) : TreeStep → ContextTree → Prop
  | add {scope : Scope} {above : Option Int} {parent : Option Nat}
      (found : parentIndex t above = .ok parent) (first : parent = none → t.contexts = []) :
      Granted t (.add scope above) ⟨t.contexts ++ [t.contextFor scope parent]⟩
  | assign {context : Int} {name : String} {value : Attribute} {c : Context}
      (found : contextAt t context = .ok c) (here : t.contexts[c.index]? = some c) :
      Granted t (.assign context name value) ⟨t.contexts.set c.index (c.assign name value)⟩
  | read {step : TreeStep} (reads : step.isRead = true) : Granted t step t

theorem exists_getElem?_of_contextAt {t : ContextTree} {position : Int} {c : Context}
    (h : contextAt t position = .ok c) : ∃ i : Nat, t.contexts[i]? = some c := by
  unfold contextAt ContextTree.get at h
  dsimp only at h
  generalize (if position < 0 then position + (t.size : Int) else position) = index at h
  by_cases hneg : index < 0
  · simp [hneg, Except.mapError] at h
  · cases hc : t.contexts[index.toNat]? with
    | none => simp [hneg, hc, Except.mapError] at h
    | some found =>
        simp only [hneg, if_false, hc, Except.mapError, Except.ok.injEq] at h
        exact ⟨index.toNat, h ▸ hc⟩

/-- A context that a position leads to stands at its own index. -/
theorem getElem?_index_of_contextAt {t : ContextTree} (h : t.WellLinked) {position : Int}
    {c : Context} (hc : contextAt t position = .ok c) : t.contexts[c.index]? = some c := by
  obtain ⟨i, hi⟩ := exists_getElem?_of_contextAt hc
  rw [h.index_eq hi]
  exact hi

/-- The parent that was asked for is there. -/
theorem parentIndex_lt {t : ContextTree} (h : t.WellLinked) {above : Option Int} {j : Nat}
    (hparent : parentIndex t above = .ok (some j)) : j < t.size := by
  cases above with
  | none => simp [parentIndex] at hparent
  | some position =>
      cases hc : contextAt t position with
      | error fault => simp [parentIndex, hc, Except.map] at hparent
      | ok c =>
          simp only [parentIndex, hc, Except.map, Except.ok.injEq, Option.some.injEq] at hparent
          obtain ⟨hlt, -⟩ := List.getElem?_eq_some_iff.mp (getElem?_index_of_contextAt h hc)
          rw [← hparent]
          exact hlt

/-- Setting an attribute replaces one context. -/
theorem assign_eq_set {t : ContextTree} {c : Context} (hc : t.contexts[c.index]? = some c)
    (name : String) (value : Attribute) :
    t.assign c.index name value = ⟨t.contexts.set c.index (c.assign name value)⟩ := by
  unfold ContextTree.assign
  rw [List.modify_eq_set_getElem?, hc]
  rfl

/-- A step is refused and leaves the tree alone, or is granted. -/
theorem run_cases {t : ContextTree} (h : t.WellLinked) (step : TreeStep) :
    (∃ fault, step.run t = (t, .error fault)) ∨
      ∃ after answer, step.run t = (after, .ok answer) ∧ Granted t step after := by
  have hread : ∀ step : TreeStep, step.isRead = true → step.run t = (t, step.read t) →
      (∃ fault, step.run t = (t, .error fault)) ∨
        ∃ after answer, step.run t = (after, .ok answer) ∧ Granted t step after := by
    intro step hreads hrun
    rw [hrun]
    cases hanswer : step.read t with
    | error fault => exact Or.inl ⟨fault, rfl⟩
    | ok answer => exact Or.inr ⟨t, answer, rfl, Granted.read hreads⟩
  cases step with
  | add scope above =>
      cases hparent : parentIndex t above with
      | error fault => exact Or.inl ⟨fault, by simp only [TreeStep.run, hparent]⟩
      | ok parent =>
          cases hadd : t.add scope parent with
          | error fault => exact Or.inl ⟨.tree fault, by simp only [TreeStep.run, hparent, hadd]⟩
          | ok next =>
              obtain ⟨hfirst, rfl⟩ := ContextTree.add_eq_ok hadd
              refine Or.inr ⟨_, _, by simp only [TreeStep.run, hparent, hadd]; rfl, ?_⟩
              exact Granted.add hparent hfirst
  | assign context name value =>
      cases hc : contextAt t context with
      | error fault => exact Or.inl ⟨fault, by simp only [TreeStep.run, hc]⟩
      | ok c =>
          have hhere : t.contexts[c.index]? = some c := getElem?_index_of_contextAt h hc
          refine Or.inr ⟨_, _, by simp only [TreeStep.run, hc, assign_eq_set hhere]; rfl, ?_⟩
          exact Granted.assign hc hhere
  | _ => exact hread _ rfl rfl

/-- Links stay right when a step is granted. -/
theorem Granted.wellLinked {t after : ContextTree} {step : TreeStep} (h : t.WellLinked)
    (hstep : Granted t step after) : after.WellLinked := by
  cases hstep with
  | @add scope above parent found first =>
      refine h.append scope ⟨?_, ?_⟩ ?_
      · intro hnone
        exact List.length_eq_zero_iff.mpr (first hnone)
      · intro hsize
        cases parent with
        | none => rfl
        | some j =>
            have hj : j < t.size := parentIndex_lt h found
            omega
      · rintro j rfl
        exact parentIndex_lt h found
  | assign found here =>
      rw [← assign_eq_set here]
      exact h.assign _ _ _
  | read reads => exact h

/-- No granted step removes a context, moves it or gives it another parent. -/
theorem Granted.isPrefix {t after : ContextTree} {step : TreeStep} (hstep : Granted t step after) :
    t.contexts.map Context.bare <+: after.contexts.map Context.bare := by
  cases hstep with
  | add found first =>
      rw [List.map_append]
      exact List.prefix_append _ _
  | @assign context name value c found here =>
      obtain ⟨hlt, heq⟩ := List.getElem?_eq_some_iff.mp here
      have hbound : c.index < (t.contexts.map Context.bare).length := by simpa using hlt
      have hbare : (t.contexts.map Context.bare)[c.index] = c.bare := by
        rw [List.getElem_map, heq]
      have hsame : (t.contexts.set c.index (c.assign name value)).map Context.bare =
          t.contexts.map Context.bare := by
        rw [List.map_set, Context.assign_bare, ← hbare, List.set_getElem_self]
      exact ⟨[], (List.append_nil _).trans hsame.symm⟩
  | read reads => exact List.prefix_rfl

/-- What holds after a step on a tree: the links are right, so that the way up from every context
ends at the root after as many links as its depth says; all contexts from before are at their
places with their parents; a refused step has changed nothing, nor has one that reads; and a
granted one has done what it was asked to. -/
structure StepKeeps (before : ContextTree) (step : TreeStep)
    (out : ContextTree × Except TreeFault TreeAnswer) : Prop where
  linked : out.1.WellLinked
  climbs : ∀ c ∈ out.1.contexts, ∃ above, out.1.Climbs c above ∧
    (c :: above).getLast? = out.1.contexts[0]? ∧ out.1.depth c = above.length
  kept : before.contexts.map Context.bare <+: out.1.contexts.map Context.bare
  refused : ∀ fault, out.2 = .error fault → out.1 = before
  reads : step.isRead = true → out.1 = before
  granted : ∀ answer, out.2 = .ok answer → Granted before step out.1

theorem stepKeeps_run {t : ContextTree} (h : t.WellLinked) (step : TreeStep) :
    StepKeeps t step (step.run t) := by
  have hclimbs : ∀ after : ContextTree, after.WellLinked → ∀ c ∈ after.contexts, ∃ above,
      after.Climbs c above ∧ (c :: above).getLast? = after.contexts[0]? ∧
        after.depth c = above.length := by
    intro after hafter c hc
    obtain ⟨i, hi⟩ := List.mem_iff_getElem?.mp hc
    obtain ⟨hup, hlast⟩ := hafter.climbs_ancestors hi
    exact ⟨after.ancestors c, hup, hlast, rfl⟩
  rcases run_cases h step with ⟨fault, hrun⟩ | ⟨after, answer, hrun, hgranted⟩
  · rw [hrun]
    refine ⟨h, hclimbs t h, List.prefix_rfl, fun _ _ => rfl, fun _ => rfl, ?_⟩
    intro answer hanswer
    cases hanswer
  · rw [hrun]
    have hafter : after.WellLinked := hgranted.wellLinked h
    refine ⟨hafter, hclimbs after hafter, hgranted.isPrefix, ?_, ?_, fun _ _ => hgranted⟩
    · intro fault hfault
      cases hfault
    · intro hreads
      cases hgranted with
      | read reads => rfl
      | _ => cases hreads

theorem runAll_eq_session (t : ContextTree) (steps : List TreeStep) :
    TreeStep.runAll t steps = session (fun t step => step.run t) t steps := by
  induction steps generalizing t with
  | nil => rfl
  | cons step rest ih =>
      unfold TreeStep.runAll session
      dsimp only
      rw [ih]

/-- Whatever steps are taken on a tree that starts empty, each of them keeps all links. -/
theorem eachStep_keeps_runAll (steps : List TreeStep) :
    EachStep StepKeeps {} steps (TreeStep.runAll {} steps) := by
  rw [runAll_eq_session]
  apply eachStep_session WellLinked
  · intro t step h
    exact (stepKeeps_run h step).linked
  · intro t step h
    exact stepKeeps_run h step
  · exact ContextTree.wellLinked_empty

end Schema
end ClientForge
