import ClientForge.Proofs.ContextTree.Arena
/-!
# References walk their hops

A reference takes one parent link for each hop and then reads one attribute where it stands.
`Leads` follows the links one by one, without the list of ancestors that depth and resolution are computed
from.  In a tree that is built by adding contexts the two agree (`drop_ancestors_of_leads`): from a
context of depth `d` there is somewhere to go for up to `d` hops (`exists_leads_iff`), further
references fail at hop `d + 1`, and all others read the context they arrive at and no other
(`walksHops_of_built`).
-/

namespace ClientForge

namespace Scope

/-- What a reference reads in the scope where it stops. -/
def own (s : Scope) (attr : String) : Except Fault Attribute :=
  (s.attribute? attr).elim (.error (.missing attr s.kind s.path)) .ok

/-- The same fault of a reference that has taken some hops before. -/
def Fault.after (before : Nat) : Fault → Fault
  | .pastRoot hop hops => .pastRoot (before + hop) (before + hops)
  | .missing attr kind path => .missing attr kind path

/-- Beyond the last scope of a lineage there is nothing to read. -/
theorem resolve_of_length_le {lineage : List Scope} {hops : Nat} (h : lineage.length ≤ hops)
    (attr : String) : resolve lineage hops attr = .error (.pastRoot lineage.length hops) := by
  unfold resolve
  rw [climb_eq_drop, List.drop_eq_nil_of_le h, Nat.zero_add]
  rfl

/-- A reference reads the first of the scopes that its hops leave over. -/
theorem resolve_of_drop_eq_cons {lineage rest : List Scope} {hops : Nat} {s : Scope}
    (h : lineage.drop hops = s :: rest) (attr : String) :
    resolve lineage hops attr = s.own attr := by
  unfold resolve own
  rw [climb_eq_drop, h, List.head?_cons, Option.elim_some]
  cases hvalue : s.attribute? attr with
  | none => simp only [hvalue, Option.elim_none]
  | some value => simp only [hvalue, Option.elim_some]

theorem own_ne_pastRoot (s : Scope) (attr : String) (hop hops : Nat) :
    s.own attr ≠ .error (.pastRoot hop hops) := by
  unfold own
  cases s.attribute? attr with
  | none => simp
  | some value => simp

/-- Hops that were taken before do not matter for what is read. -/
theorem mapError_own (s : Scope) (attr : String) (before : Nat) :
    (s.own attr).mapError (Fault.after before) = s.own attr := by
  unfold own
  cases s.attribute? attr with
  | none => rfl
  | some value => rfl

end Scope

namespace ContextTree

/-- A tree that is built by adding contexts, each but the first below one that is there, and by
setting attributes. -/
inductive Built : ContextTree → Prop
  | empty : Built {}
  | add {t next : ContextTree} {scope : Scope} {parent : Option Nat} (built : Built t)
      (inside : ∀ j, parent = some j → j < t.size) (added : t.add scope parent = .ok next) :
      Built next
  | assign {t : ContextTree} (built : Built t) (index : Nat) (name : String) (value : Attribute) :
      Built (t.assign index name value)

theorem Built.wellLinked {t : ContextTree} (h : t.Built) : t.WellLinked := by
  induction h with
  | empty => exact wellLinked_empty
  | @add t next scope parent _ inside added ih =>
      obtain ⟨hfirst, rfl⟩ := add_eq_ok added
      refine ih.append scope ⟨fun hnone => ?_, fun hsize => ?_⟩ inside
      · exact List.length_eq_zero_iff.mpr (hfirst hnone)
      · cases parent with
        | none => rfl
        | some j =>
            have hj : j < t.size := inside j rfl
            omega
  | assign _ index name value ih => exact ih.assign index name value

/-- The context that so many parent links lead to. -/
inductive Leads (t : ContextTree) : Context → Nat → Context → Prop
  | here (c : Context) : Leads t c 0 c
  | up {c above target : Context} {index hops : Nat} (link : c.parent = some index)
      (found : t.contexts[index]? = some above) (rest : Leads t above hops target) :
      Leads t c (hops + 1) target

section Linked

variable {t : ContextTree} {i : Nat} {c target : Context} {hops : Nat}

theorem Leads.trans {mid : Context} {more : Nat} (h : t.Leads c hops mid)
    (hmore : t.Leads mid more target) : t.Leads c (hops + more) target := by
  induction h with
  | here c =>
      rw [Nat.zero_add]
      exact hmore
  | up link found rest ih =>
      rw [Nat.succ_add]
      exact Leads.up link found (ih hmore)

/-- Links stay in the tree. -/
theorem Leads.exists_getElem? (h : t.Leads c hops target) (hc : t.contexts[i]? = some c) :
    ∃ j : Nat, t.contexts[j]? = some target := by
  induction h generalizing i with
  | here c => exact ⟨i, hc⟩
  | up link found rest ih => exact ih found

/-- After the contexts that the links pass stand the one they lead to and its ancestors. -/
theorem WellLinked.drop_ancestors_of_leads (h : t.WellLinked) (hc : t.contexts[i]? = some c)
    (hleads : t.Leads c hops target) :
    (c :: t.ancestors c).drop hops = target :: t.ancestors target := by
  induction hleads generalizing i with
  | here c => rfl
  | up link found rest ih =>
      rw [List.drop_succ_cons, h.ancestors_eq_cons hc link found]
      exact ih found

/-- A context is one deeper than its parent. -/
theorem WellLinked.depth_eq_succ (h : t.WellLinked) {j : Nat} {above : Context}
    (hc : t.contexts[i]? = some c) (hparent : c.parent = some j)
    (habove : t.contexts[j]? = some above) : t.depth c = t.depth above + 1 := by
  unfold depth
  rw [h.ancestors_eq_cons hc hparent habove, List.length_cons]

/-- There are as many links above a context as its depth says. -/
theorem WellLinked.exists_leads (h : t.WellLinked) (hc : t.contexts[i]? = some c)
    (hhops : hops ≤ t.depth c) : ∃ target, t.Leads c hops target := by
  refine h.induction (P := fun _ c => ∀ hops ≤ t.depth c, ∃ target, t.Leads c hops target)
    ?_ ?_ hc hops hhops
  · intro c _ hparent hops hhops
    have hdepth : t.depth c = 0 := by
      unfold depth
      rw [ancestors_eq_nil hparent, List.length_nil]
    obtain rfl : hops = 0 := by omega
    exact ⟨c, Leads.here c⟩
  · intro i j c above hc hparent habove ih hops hhops
    rw [h.depth_eq_succ hc hparent habove] at hhops
    cases hops with
    | zero => exact ⟨c, Leads.here c⟩
    | succ hops =>
        obtain ⟨target, htarget⟩ := ih hops (by omega)
        exact ⟨target, Leads.up hparent habove htarget⟩

/-- What the links lead to is as much less deep as there are links. -/
theorem WellLinked.depth_of_leads (h : t.WellLinked) (hc : t.contexts[i]? = some c)
    (hleads : t.Leads c hops target) : t.depth c = hops + t.depth target := by
  have hlength := congrArg List.length (h.drop_ancestors_of_leads hc hleads)
  rw [List.length_drop, List.length_cons, List.length_cons] at hlength
  unfold depth
  omega

theorem WellLinked.exists_leads_iff (h : t.WellLinked) (hc : t.contexts[i]? = some c) :
    (∃ target, t.Leads c hops target) ↔ hops ≤ t.depth c := by
  constructor
  · rintro ⟨target, hleads⟩
    have hdepth := h.depth_of_leads hc hleads
    omega
  · exact h.exists_leads hc

/-! ## Resolution -/

theorem length_lineage (t : ContextTree) (c : Context) : (t.lineage c).length = t.depth c + 1 := by
  unfold lineage depth
  rw [List.length_map, List.length_cons]

theorem WellLinked.drop_lineage_of_leads (h : t.WellLinked) (hc : t.contexts[i]? = some c)
    (hleads : t.Leads c hops target) : (t.lineage c).drop hops = t.lineage target := by
  unfold lineage
  rw [← List.map_drop, h.drop_ancestors_of_leads hc hleads]

/-- A reference reads the context that its hops lead to. -/
theorem WellLinked.resolve_of_leads (h : t.WellLinked) (hc : t.contexts[i]? = some c)
    (hleads : t.Leads c hops target) (attr : String) :
    t.resolve c hops attr = target.own attr :=
  Scope.resolve_of_drop_eq_cons (h.drop_lineage_of_leads hc hleads) attr

theorem resolve_of_depth_lt (hhops : t.depth c < hops) (attr : String) :
    t.resolve c hops attr = .error (.pastRoot (t.depth c + 1) hops) := by
  have hlength := length_lineage t c
  rw [resolve, Scope.resolve_of_length_le (by omega), hlength]

/-- The first hops of a reference can be taken before it is resolved. -/
theorem WellLinked.resolve_add (h : t.WellLinked) {mid : Context} {first : Nat}
    (hc : t.contexts[i]? = some c) (hleads : t.Leads c first mid) (second : Nat) (attr : String) :
    t.resolve c (first + second) attr =
      (t.resolve mid second attr).mapError (Scope.Fault.after first) := by
  obtain ⟨j, hmid⟩ := hleads.exists_getElem? hc
  have hdepth := h.depth_of_leads hc hleads
  by_cases hsecond : second ≤ t.depth mid
  · obtain ⟨target, htarget⟩ := h.exists_leads hmid hsecond
    rw [h.resolve_of_leads hmid htarget, h.resolve_of_leads hc (hleads.trans htarget),
      Scope.mapError_own]
  · -- both walks end above the same root, the longer one so many hops later
    rw [resolve_of_depth_lt (by omega), resolve_of_depth_lt (by omega), hdepth]
    rfl

/-- What references give that are resolved from a context: there is somewhere to go for as many hops
as the depth says; a longer walk fails at the hop after those; any other walk reads the context that
its links lead to, whatever else has the attribute; and a walk in two parts reads what the second
part reads where the first has led. -/
structure WalksHops (t : ContextTree) (c : Context) : Prop where
  leads_iff : ∀ hops, (∃ target, t.Leads c hops target) ↔ hops ≤ t.depth c
  pastRoot_iff : ∀ hops attr,
    (∃ hop count, t.resolve c hops attr = .error (.pastRoot hop count)) ↔ t.depth c < hops
  pastRoot_eq : ∀ hops attr, t.depth c < hops →
    t.resolve c hops attr = .error (.pastRoot (t.depth c + 1) hops)
  lands : ∀ hops target, t.Leads c hops target → ∀ attr, t.resolve c hops attr = target.own attr
  resolve_add : ∀ first mid, t.Leads c first mid → ∀ second attr,
    t.resolve c (first + second) attr =
      (t.resolve mid second attr).mapError (Scope.Fault.after first)

theorem WellLinked.pastRoot_iff (h : t.WellLinked) (hc : t.contexts[i]? = some c) (hops : Nat)
    (attr : String) :
    (∃ hop count, t.resolve c hops attr = .error (.pastRoot hop count)) ↔ t.depth c < hops := by
  constructor
  · rintro ⟨hop, count, hresolve⟩
    by_contra hhops
    obtain ⟨target, htarget⟩ := h.exists_leads hc (Nat.le_of_not_lt hhops)
    rw [h.resolve_of_leads hc htarget] at hresolve
    exact Scope.own_ne_pastRoot _ attr hop count hresolve
  · intro hhops
    exact ⟨t.depth c + 1, hops, resolve_of_depth_lt hhops attr⟩

end Linked

/-- In a tree that is built by adding contexts, references walk exactly their hops. -/
theorem walksHops_of_built {t : ContextTree} {c : Context} (ht : t.Built) (hc : c ∈ t.contexts) :
    t.WalksHops c := by
  have h := ht.wellLinked
  obtain ⟨i, hi⟩ := List.mem_iff_getElem?.mp hc
  exact
    { leads_iff := fun _ => h.exists_leads_iff hi
      pastRoot_iff := h.pastRoot_iff hi
      pastRoot_eq := fun _ attr hhops => resolve_of_depth_lt hhops attr
      lands := fun _ _ hleads => h.resolve_of_leads hi hleads
      resolve_add := fun _ _ hleads => h.resolve_add hi hleads }

/-- A client with a URL, a set that has not resolved any, and an action in it. -/
def gapScopes : Scope × Scope × Scope :=
  (⟨.client, "XSClient", "", [("url", .value (.str "http://root"))]⟩,
    ⟨.apiSet, "users", "~users", []⟩,
    ⟨.action, "all", "~users.all", [("method", .value (.str "GET"))]⟩)

/-- The action of `gapScopes` in its tree. -/
def gapAction : Context :=
  ⟨gapScopes.2.2, 2, some 1⟩

def gapTree : ContextTree :=
  ⟨[⟨gapScopes.1, 0, none⟩, ⟨gapScopes.2.1, 1, some 0⟩, gapAction]⟩

/-- One hop finds no URL although a second one would, and three go past the root. -/
theorem walksHops_of_built_gap :
    gapTree.Built ∧ gapAction ∈ gapTree.contexts ∧ gapTree.WalksHops gapAction ∧
      gapTree.depth gapAction = 2 ∧
      gapTree.resolve gapAction 3 "url" = .error (.pastRoot 3 3) ∧
      gapTree.resolve gapAction 1 "url" = .error (.missing "url" .apiSet "~users") ∧
      gapTree.resolve gapAction 2 "url" = .ok (.value (.str "http://root")) := by
  have hbuilt : gapTree.Built := by
    have hroot := @Built.add {} _ gapScopes.1 none .empty (by simp) rfl
    have hset := @Built.add _ _ gapScopes.2.1 (some 0) hroot (by simp [size]) rfl
    exact @Built.add _ _ gapScopes.2.2 (some 1) hset (by simp [size]) rfl
  have hmem : gapAction ∈ gapTree.contexts := List.mem_of_getElem? (i := 2) rfl
  have hwalks := walksHops_of_built hbuilt hmem
  have hup : gapTree.Leads gapAction 1 ⟨gapScopes.2.1, 1, some 0⟩ := .up rfl rfl (.here _)
  have htop : gapTree.Leads gapAction 2 ⟨gapScopes.1, 0, none⟩ :=
    .up rfl rfl (.up rfl rfl (.here _))
  exact ⟨hbuilt, hmem, hwalks, rfl, hwalks.pastRoot_eq 3 "url" (by decide),
    hwalks.lands 1 _ hup "url", hwalks.lands 2 _ htop "url"⟩

end ContextTree
end ClientForge
