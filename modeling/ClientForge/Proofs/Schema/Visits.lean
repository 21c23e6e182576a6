import ClientForge.Schema.Bound
/-!
# Visits of a bound tree

The API sets of a bound tree in depth-first pre-order, each with the names that lead to it.  A
property that passes from every set to the sets nested in it holds at every visit
(`forall_mem_visits`).
-/

namespace ClientForge
namespace ApiSet

mutual

/-- An API set that names lead to, and the sets below it, each before those nested in it. -/
def visits (names : List String) : ApiSet → List (List String × ApiSet)
  | ⟨name, path, url, sets, actions⟩ =>
      (names, ⟨name, path, url, sets, actions⟩) :: visitsAll names sets

/-- The visits of several API sets that are nested in one. -/
def visitsAll (names : List String) : List ApiSet → List (List String × ApiSet)
  | [] => []
  | set :: rest => visits (names ++ [set.name]) set ++ visitsAll names rest

end

theorem visits_eq (names : List String) (set : ApiSet) :
    set.visits names = (names, set) :: visitsAll names set.sets := by
  cases set
  rw [visits]

theorem mem_visitsAll_iff {names : List String} {sets : List ApiSet}
    {visit : List String × ApiSet} :
    visit ∈ visitsAll names sets ↔ ∃ set ∈ sets, visit ∈ set.visits (names ++ [set.name]) := by
  induction sets with
  | nil => simp [visitsAll]
  | cons set rest ih => simp [visitsAll, ih]

theorem mem_visits_self (names : List String) (set : ApiSet) : (names, set) ∈ set.visits names := by
  rw [visits_eq]
  exact List.mem_cons_self

section Induction

variable {P : List String → ApiSet → Prop}

mutual

/-- What passes from every set to the sets nested in it holds at every visit. -/
theorem forall_mem_visits
    (step : ∀ names set, P names set → ∀ child ∈ set.sets, P (names ++ [child.name]) child) :
    (set : ApiSet) → (names : List String) → P names set →
      ∀ visit ∈ set.visits names, P visit.1 visit.2
  | ⟨name, path, url, sets, actions⟩, names, hset, visit, hvisit => by
      rw [visits] at hvisit
      rcases List.mem_cons.mp hvisit with rfl | hbelow
      · exact hset
      · exact forall_mem_visitsAll step sets names (step names _ hset) visit hbelow

private theorem forall_mem_visitsAll
    (step : ∀ names set, P names set → ∀ child ∈ set.sets, P (names ++ [child.name]) child) :
    (sets : List ApiSet) → (names : List String) →
      (∀ child ∈ sets, P (names ++ [child.name]) child) →
      ∀ visit ∈ visitsAll names sets, P visit.1 visit.2
  | [], _, _, _, hvisit => by
      rw [visitsAll] at hvisit
      cases hvisit
  | set :: rest, names, hsets, visit, hvisit => by
      rw [visitsAll] at hvisit
      rcases List.mem_append.mp hvisit with hset | hrest
      · exact forall_mem_visits step set _ (hsets set List.mem_cons_self) visit hset
      · exact forall_mem_visitsAll step rest names
          (fun child hchild => hsets child (List.mem_cons_of_mem _ hchild)) visit hrest

end

end Induction

/-- The visits from a visited set on are visits of the whole tree. -/
private theorem visits_subset {root set : ApiSet} {start names : List String}
    (h : (names, set) ∈ root.visits start) : ∀ visit ∈ set.visits names,
      visit ∈ root.visits start := by
  refine forall_mem_visits (P := fun names set => ∀ visit ∈ set.visits names,
    visit ∈ root.visits start) ?_ root start (fun _ hvisit => hvisit) (names, set) h
  intro names set hset child hchild visit hvisit
  apply hset
  rw [visits_eq]
  exact List.mem_cons_of_mem _ (mem_visitsAll_iff.mpr ⟨child, hchild, hvisit⟩)

/-- A set nested in a visited set is visited. -/
theorem mem_visits_of_mem_sets {root set child : ApiSet} {start names : List String}
    (h : (names, set) ∈ root.visits start) (hchild : child ∈ set.sets) :
    (names ++ [child.name], child) ∈ root.visits start := by
  apply visits_subset h
  rw [visits_eq]
  exact List.mem_cons_of_mem _
    (mem_visitsAll_iff.mpr ⟨child, hchild, mem_visits_self _ child⟩)

end ApiSet
end ClientForge
