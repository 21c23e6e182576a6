import ClientForge.Proofs.ContextTree.Arena
import ClientForge.Proofs.Schema.Key
import ClientForge.Schema.Binder
/-!
# Context trees that mirror nodes

`Mirrors nodes t` says that the contexts of a tree are given nodes in their order: same kind, name
and path, the parent of each at the node that encloses it, and every context that encloses another
a client or an API set which has resolved its URL and nothing else.  Depth and ancestors follow from
the keys of the nodes (`Mirrors.depth_eq`, `Mirrors.isOpen_of_mem_ancestors`).

The tree grows at the end of a branch.  `Entered` describes it right after a node was entered, and
`Grown` while the members of a node are being taken; the lemmas about them say what each event does.
Both follow the scopes that binding hands down: right after a node was entered they are what the
parent links of its context lead to (`Entered.showsLineage`).
-/

namespace ClientForge

/-- A client or an API set that has resolved its URL and nothing else. -/
def Context.IsOpen (c : Context) : Prop :=
  (c.kind = .client ∨ c.kind = .apiSet) ∧ c.attributes.map Prod.fst = ["url"]

@[simp] theorem Context.toScope_assign (c : Context) (name : String) (value : Attribute) :
    (c.assign name value).toScope = c.toScope.assign name value := rfl

/-- What a context says about its node. -/
def Context.label (c : Context) : NodeKind × String × String :=
  (c.kind, c.name, c.path)

namespace Schema

/-- A node of a document, with the keys that lead to it. -/
structure Node where
  kind : NodeKind
  name : String
  keys : KeyPath
deriving DecidableEq, Repr

namespace Node

/-- The label that the context of a node has. -/
def label (node : Node) : NodeKind × String × String :=
  (node.kind, node.name, node.keys.dotted)

/-- The scope of a node that has resolved nothing yet. -/
def scope (node : Node) : Scope :=
  { kind := node.kind, name := node.name, path := node.keys.dotted }

end Node

/-- A client or an API set that resolves its URL first is then open. -/
theorem Context.isOpen_assign_url {c : Context} {node : Node} (hscope : c.toScope = node.scope)
    (hkind : node.kind = .client ∨ node.kind = .apiSet) (url : UrlTemplate) :
    (c.assign "url" (.url url)).IsOpen := by
  refine ⟨?_, ?_⟩
  · rw [Context.toScope_assign, hscope]
    exact hkind
  · rw [Context.toScope_assign, hscope]
    rfl

/-- The contexts of a tree are nodes in their order, below one another as the keys say. -/
structure Mirrors (nodes : List Node) (t : ContextTree) : Prop where
  linked : t.WellLinked
  labels : t.contexts.map Context.label = nodes.map Node.label
  top : ∀ {node : Node}, nodes[0]? = some node → node.keys = []
  enclosed : ∀ {i j : Nat} {c : Context}, t.contexts[i]? = some c → c.parent = some j →
    ∃ inner outer key up, nodes[i]? = some inner ∧ nodes[j]? = some outer ∧
      inner.keys = outer.keys ++ [key] ∧ t.contexts[j]? = some up ∧ up.IsOpen

section Mirrors

variable {nodes : List Node} {t : ContextTree}

theorem mirrors_empty : Mirrors [] {} where
  linked := ContextTree.wellLinked_empty
  labels := rfl
  top h := by simp at h
  enclosed h := by simp at h

theorem Mirrors.size_eq (h : Mirrors nodes t) : t.size = nodes.length := by
  have hlength := congrArg List.length h.labels
  rw [List.length_map, List.length_map] at hlength
  exact hlength

/-- Each context has its node. -/
theorem Mirrors.exists_node (h : Mirrors nodes t) {i : Nat} {c : Context}
    (hc : t.contexts[i]? = some c) : ∃ node, nodes[i]? = some node ∧ c.label = node.label := by
  have hlabel : (nodes.map Node.label)[i]? = some c.label := by
    rw [← h.labels, List.getElem?_map, hc]
    rfl
  rw [List.getElem?_map, Option.map_eq_some_iff] at hlabel
  obtain ⟨node, hnode, heq⟩ := hlabel
  exact ⟨node, hnode, heq.symm⟩

/-! ## Depth and ancestors -/

/-- A context is as deep as its node has keys, and all contexts above it are open. -/
private theorem Mirrors.climb (h : Mirrors nodes t) {i : Nat} {c : Context}
    (hc : t.contexts[i]? = some c) :
    (∀ node, nodes[i]? = some node → t.depth c = node.keys.length) ∧
      ∀ up ∈ t.ancestors c, up.IsOpen := by
  refine h.linked.induction (P := fun i c =>
    (∀ node, nodes[i]? = some node → t.depth c = node.keys.length) ∧
      ∀ up ∈ t.ancestors c, up.IsOpen) ?_ ?_ hc
  · intro c _ hparent
    unfold ContextTree.depth
    rw [ContextTree.ancestors_eq_nil hparent]
    refine ⟨fun node hnode => ?_, nofun⟩
    rw [h.top hnode]
    rfl
  · rintro i j c above hc hparent habove ⟨hdepth, hopen⟩
    obtain ⟨inner, outer, key, up, hinner, houter, hkeys, hup, hupOpen⟩ := h.enclosed hc hparent
    obtain rfl : above = up := Option.some.inj (habove.symm.trans hup)
    have hancestors := h.linked.ancestors_eq_cons hc hparent habove
    refine ⟨fun node hnode => ?_, fun up' hup' => ?_⟩
    · obtain rfl : inner = node := Option.some.inj (hinner.symm.trans hnode)
      have habove_depth : t.depth above = outer.keys.length := hdepth outer houter
      unfold ContextTree.depth at habove_depth ⊢
      rw [hancestors, List.length_cons, habove_depth, hkeys, List.length_append]
      rfl
    · rw [hancestors] at hup'
      rcases List.mem_cons.mp hup' with rfl | hmem
      · exact hupOpen
      · exact hopen up' hmem

theorem Mirrors.depth_eq (h : Mirrors nodes t) {i : Nat} {c : Context} {node : Node}
    (hc : t.contexts[i]? = some c) (hnode : nodes[i]? = some node) :
    t.depth c = node.keys.length :=
  (h.climb hc).1 node hnode

theorem Mirrors.isOpen_of_mem_ancestors (h : Mirrors nodes t) {i : Nat} {c up : Context}
    (hc : t.contexts[i]? = some c) (hup : up ∈ t.ancestors c) : up.IsOpen :=
  (h.climb hc).2 up hup

/-! ## Growing -/

/-- One more node, below an open context. -/
theorem Mirrors.append (h : Mirrors nodes t) {j : Nat} {outer node : Node} {key : String}
    {up : Context} (houter : nodes[j]? = some outer) (hkeys : node.keys = outer.keys ++ [key])
    (hup : t.contexts[j]? = some up) (hopen : up.IsOpen) :
    Mirrors (nodes ++ [node]) ⟨t.contexts ++ [t.contextFor node.scope (some j)]⟩ := by
  obtain ⟨hj, -⟩ := List.getElem?_eq_some_iff.mp hup
  have hsize := h.size_eq
  unfold ContextTree.size at hsize
  refine ⟨?_, ?_, ?_, ?_⟩
  · refine h.linked.append node.scope ⟨nofun, fun hzero => ?_⟩ ?_
    · unfold ContextTree.size at hzero
      omega
    · rintro _ ⟨⟩
      exact hj
  · rw [List.map_append, List.map_append, h.labels]
    rfl
  · intro first hfirst
    rw [List.getElem?_append_left (by omega)] at hfirst
    exact h.top hfirst
  · intro i k c hc hk
    dsimp only at hc ⊢
    by_cases hi : i < t.contexts.length
    · rw [List.getElem?_append_left hi] at hc
      have hki : k < i := h.linked.parent_lt hc hk
      rw [List.getElem?_append_left (by omega), List.getElem?_append_left (by omega),
        List.getElem?_append_left (by omega)]
      exact h.enclosed hc hk
    · rw [List.getElem?_append_right (by omega), List.getElem?_singleton] at hc
      split at hc
      · cases hc
        cases hk
        refine ⟨node, outer, key, up, ?_, ?_, hkeys, ?_, hopen⟩
        · rw [List.getElem?_append_right (by omega), ← hsize]
          simp_all
        · rw [List.getElem?_append_left (by omega)]
          exact houter
        · rw [List.getElem?_append_left hj]
          exact hup
      · cases hc

/-- The first node. -/
theorem mirrors_singleton {node : Node} (hkeys : node.keys = []) :
    Mirrors [node] ⟨[ContextTree.contextFor {} node.scope none]⟩ where
  linked := ContextTree.wellLinked_empty.append node.scope ⟨fun _ => rfl, fun _ => rfl⟩ nofun
  labels := rfl
  top h := by
    cases h
    exact hkeys
  enclosed {i j c} hc hj := by
    rw [List.getElem?_singleton] at hc
    split at hc
    · cases hc
      cases hj
    · cases hc

/-- The context that was added last may still resolve attributes: it encloses nothing yet. -/
theorem Mirrors.assign (h : Mirrors nodes t) {index : Nat} (hlast : index + 1 = t.size)
    (name : String) (value : Attribute) : Mirrors nodes (t.assign index name value) := by
  refine ⟨h.linked.assign index name value, ?_, h.top, ?_⟩
  · rw [← h.labels]
    apply List.ext_getElem?
    intro i
    rw [List.getElem?_map, List.getElem?_map, ContextTree.getElem?_assign, Option.map_map]
    congr 1
    funext c
    dsimp only [Function.comp]
    split
    · rfl
    · rfl
  · intro i j c hc hj
    rw [ContextTree.getElem?_assign] at hc
    obtain ⟨c', hc', rfl⟩ := Option.map_eq_some_iff.mp hc
    have hparent : c'.parent = some j := by
      split at hj
      · exact hj
      · exact hj
    obtain ⟨inner, outer, key, up, hinner, houter, hkeys, hup, hopen⟩ := h.enclosed hc' hparent
    refine ⟨inner, outer, key, up, hinner, houter, hkeys, ?_, hopen⟩
    obtain ⟨hi, -⟩ := List.getElem?_eq_some_iff.mp hc'
    have hji : j < i := h.linked.parent_lt hc' hparent
    unfold ContextTree.size at hlast
    rw [ContextTree.getElem?_assign, hup, Option.map_some, if_neg (by omega)]

end Mirrors

/-! ## Branches -/

private theorem getElem?_append_of_eq_some {α : Type} {list : List α} {i : Nat} {a : α}
    (h : list[i]? = some a) (more : List α) : (list ++ more)[i]? = some a := by
  obtain ⟨hi, -⟩ := List.getElem?_eq_some_iff.mp h
  rw [List.getElem?_append_left hi]
  exact h

/-- What stands at a depth of the branch: an open context below the one before it, which has the
keys so far and the scope of the lineage there. -/
structure StandsAt (nodes : List Node) (keys : KeyPath) (lineage : List Scope) (g : Growth)
    (d j : Nat) (up : Context) : Prop where
  branch : g.branch[d]? = some j
  node : ∃ outer, nodes[j]? = some outer ∧ outer.keys = keys.take d
  context : g.tree.contexts[j]? = some up
  isOpen : up.IsOpen
  parent : up.parent = (g.branch.take d).getLast?
  scope : lineage.reverse[d]? = some up.toScope

/-- The branch begins with the scopes of a lineage, the root first. -/
def Standing (nodes : List Node) (keys : KeyPath) (lineage : List Scope) (g : Growth) : Prop :=
  ∀ d < lineage.length, ∃ j up, StandsAt nodes keys lineage g d j up

/-- The members of the node at given keys are being taken, in its scope and those around it. -/
structure Grown (nodes : List Node) (keys : KeyPath) (lineage : List Scope) (g : Growth) :
    Prop where
  mirrors : Mirrors nodes g.tree
  length_lineage : lineage.length = keys.length + 1
  standing : Standing nodes keys lineage g

/-- The node at given keys was entered last, inside the enclosing scopes, and has this context. -/
structure Entered (nodes : List Node) (keys : KeyPath) (enclosing : List Scope) (c : Context)
    (g : Growth) : Prop where
  mirrors : Mirrors nodes g.tree
  length_enclosing : enclosing.length = keys.length
  standing : Standing nodes keys enclosing g
  length_branch : g.branch.length = keys.length + 1
  parent : c.parent = (g.branch.take keys.length).getLast?
  last : ∃ index node, g.branch.getLast? = some index ∧ index + 1 = g.tree.size ∧
    nodes[index]? = some node ∧ node.keys = keys ∧ g.tree.contexts[index]? = some c

/-- The context that was added last is read in a given lineage. -/
def Growth.ShowsLineage (g : Growth) (lineage : List Scope) : Prop :=
  ∃ c, g.tree.contexts.getLast? = some c ∧ g.tree.lineage c = lineage

section Branches

variable {nodes : List Node} {keys : KeyPath} {key : String} {enclosing lineage : List Scope}
  {scope : Scope} {c : Context} {g : Growth}

/-- Below the branch at some depth, the scopes that the parent links lead to are those of the
lineage. -/
theorem Standing.lineage_eq (h : Standing nodes keys lineage g) (hlinked : g.tree.WellLinked)
    {d i : Nat} (hd : d ≤ lineage.length) (hc : g.tree.contexts[i]? = some c)
    (hparent : c.parent = (g.branch.take d).getLast?) :
    g.tree.lineage c = c.toScope :: (lineage.reverse.take d).reverse := by
  unfold ContextTree.lineage
  induction d generalizing i c with
  | zero =>
      rw [ContextTree.ancestors_eq_nil hparent]
      rfl
  | succ d ih =>
      obtain ⟨j, up, hup⟩ := h d (by omega)
      have hj : (g.branch.take (d + 1)).getLast? = some j := by
        rw [List.take_add_one, hup.branch]
        exact List.getLast?_concat
      rw [hlinked.ancestors_eq_cons hc (hparent.trans hj) hup.context, List.map_cons,
        ih (by omega) hup.context hup.parent, List.take_add_one, hup.scope]
      simp

theorem Entered.showsLineage (h : Entered nodes keys enclosing c g) (hscope : c.toScope = scope) :
    g.ShowsLineage (scope :: enclosing) := by
  obtain ⟨index, node, -, hsize, -, -, hc⟩ := h.last
  refine ⟨c, ?_, ?_⟩
  · unfold ContextTree.size at hsize
    rw [List.getLast?_eq_getElem?, ← hsize, Nat.add_sub_cancel]
    exact hc
  · have hparent : c.parent = (g.branch.take enclosing.length).getLast? := by
      rw [h.length_enclosing]
      exact h.parent
    rw [h.standing.lineage_eq h.mirrors.linked (Nat.le_refl _) hc hparent, hscope,
      ← List.length_reverse, List.take_length, List.reverse_reverse]

/-- Standing below a node is standing at it. -/
theorem Standing.leave (h : Standing nodes (keys ++ [key]) lineage g)
    (hlength : lineage.length ≤ keys.length + 1) : Standing nodes keys lineage g := by
  intro d hd
  obtain ⟨j, up, hup⟩ := h d hd
  obtain ⟨outer, houter, hkeys⟩ := hup.node
  rw [List.take_append_of_le_length (by omega)] at hkeys
  exact ⟨j, up, { hup with node := ⟨outer, houter, hkeys⟩ }⟩

/-- A lineage stands with its innermost scope left out. -/
theorem Standing.tail (h : Standing nodes keys (scope :: lineage) g) :
    Standing nodes keys lineage g := by
  intro d hd
  obtain ⟨j, up, hup⟩ := h d (by rw [List.length_cons]; omega)
  have hscope := hup.scope
  rw [List.reverse_cons, List.getElem?_append_left (by rw [List.length_reverse]; exact hd)]
    at hscope
  exact ⟨j, up, { hup with scope := hscope }⟩

theorem Grown.leave (h : Grown nodes (keys ++ [key]) (scope :: lineage) g) :
    Grown nodes keys lineage g := by
  have hlength : lineage.length = keys.length + 1 := by
    have hlineage := h.length_lineage
    rw [List.length_append] at hlineage
    exact Nat.succ.inj hlineage
  exact ⟨h.mirrors, hlength, h.standing.tail.leave (Nat.le_of_eq hlength)⟩

theorem Entered.leave (h : Entered nodes (keys ++ [key]) enclosing c g) :
    Grown nodes keys enclosing g := by
  have hlength : enclosing.length = keys.length + 1 := by
    rw [h.length_enclosing, List.length_append]
    rfl
  exact ⟨h.mirrors, hlength, h.standing.leave (Nat.le_of_eq hlength)⟩

/-- A node whose URL is resolved can take members. -/
theorem Entered.grown (h : Entered nodes keys enclosing c g) (hopen : c.IsOpen) :
    Grown nodes keys (c.toScope :: enclosing) g := by
  have henclosing := h.length_enclosing
  refine ⟨h.mirrors, congrArg (· + 1) henclosing, fun d hd => ?_⟩
  rw [List.length_cons] at hd
  by_cases hlast : d = keys.length
  · obtain ⟨index, node, hindex, -, hnode, hkeys, hc⟩ := h.last
    subst hlast
    refine ⟨index, c, ?_, ⟨node, hnode, ?_⟩, hc, hopen, h.parent, ?_⟩
    · rw [List.getLast?_eq_getElem?, h.length_branch] at hindex
      exact hindex
    · rw [hkeys, List.take_length]
    · rw [List.reverse_cons, ← henclosing, ← List.length_reverse]
      exact List.getElem?_concat_length
  · obtain ⟨j, up, hup⟩ := h.standing d (by omega)
    refine ⟨j, up, { hup with scope := ?_ }⟩
    rw [List.reverse_cons, List.getElem?_append_left (by rw [List.length_reverse]; omega)]
    exact hup.scope

/-- An event that sets an attribute sets it on the node that was entered last. -/
theorem Entered.assigned (h : Entered nodes keys enclosing c g) (name : String)
    (value : Attribute) :
    Entered nodes keys enclosing (c.assign name value) (g.step (.assigned name value)) := by
  obtain ⟨index, node, hindex, hsize, hnode, hkeys, hc⟩ := h.last
  have hstep : g.step (.assigned name value) =
      { g with tree := g.tree.assign index name value } := by
    simp only [Growth.step, hindex]
  rw [hstep]
  refine ⟨h.mirrors.assign hsize name value, h.length_enclosing, ?_, h.length_branch, h.parent, ?_⟩
  · intro d hd
    obtain ⟨j, up, hup⟩ := h.standing d hd
    obtain ⟨outer, houter, houterKeys⟩ := hup.node
    -- the node entered last has other keys than those that enclose it
    have hne : index ≠ j := by
      rintro rfl
      obtain rfl : node = outer := Option.some.inj (hnode.symm.trans houter)
      have hlength := congrArg List.length (hkeys.symm.trans houterKeys)
      rw [List.length_take, ← h.length_enclosing] at hlength
      omega
    refine ⟨j, up, { hup with context := ?_ }⟩
    rw [ContextTree.getElem?_assign, hup.context, Option.map_some, if_neg hne]
  · refine ⟨index, node, hindex, ?_, hnode, hkeys, ?_⟩
    · unfold ContextTree.size ContextTree.assign at *
      rw [List.length_modify]
      exact hsize
    · rw [ContextTree.getElem?_assign, hc, Option.map_some, if_pos rfl]

/-- A member is entered below the node whose members are being taken. -/
theorem Grown.opened (h : Grown nodes keys lineage g) (node : Node)
    (hkeys : node.keys = keys ++ [key]) :
    ∃ c, c.toScope = node.scope ∧
      Entered (nodes ++ [node]) (keys ++ [key]) lineage c
        (g.step (.opened lineage node.scope)) := by
  have hlength := h.length_lineage
  obtain ⟨j, up, hup⟩ := h.standing keys.length (by omega)
  obtain ⟨outer, houter, houterKeys⟩ := hup.node
  rw [List.take_length] at houterKeys
  obtain ⟨hbranch, -⟩ := List.getElem?_eq_some_iff.mp hup.branch
  have hparent : (g.branch.take lineage.length).getLast? = some j := by
    rw [hlength, List.take_add_one, hup.branch]
    exact List.getLast?_concat
  have hstep : g.step (.opened lineage node.scope) =
      { tree := ⟨g.tree.contexts ++ [g.tree.contextFor node.scope (some j)]⟩
        branch := g.branch.take lineage.length ++ [g.tree.size] } := by
    simp only [Growth.step, hparent, ContextTree.add, Option.isNone_some, Bool.false_and,
      Bool.false_eq_true, if_false]
  have hlong : (g.branch.take lineage.length).length = lineage.length := by
    rw [List.length_take]
    omega
  have hsize := h.mirrors.size_eq
  rw [hstep]
  refine ⟨g.tree.contextFor node.scope (some j), rfl, ?_, ?_, ?_, ?_, ?_, ?_⟩
  · exact h.mirrors.append houter (by rw [houterKeys, hkeys]) hup.context hup.isOpen
  · rw [hlength, List.length_append]
    rfl
  · intro d hd
    obtain ⟨i, up', hup'⟩ := h.standing d hd
    obtain ⟨outer', houter', hkeys'⟩ := hup'.node
    refine ⟨i, up', ?_, ⟨outer', ?_, ?_⟩, ?_, hup'.isOpen, ?_, hup'.scope⟩
    · rw [List.getElem?_append_left (by omega), List.getElem?_take_of_lt (by omega)]
      exact hup'.branch
    · exact getElem?_append_of_eq_some houter' _
    · rw [List.take_append_of_le_length (by omega)]
      exact hkeys'
    · exact getElem?_append_of_eq_some hup'.context _
    · rw [List.take_append_of_le_length (by omega), List.take_take, Nat.min_eq_left (Nat.le_of_lt hd)]
      exact hup'.parent
  · rw [List.length_append, hlong, List.length_append, hlength]
    rfl
  · dsimp only
    rw [List.length_append, List.length_singleton, ← hlength,
      List.take_append_of_le_length (Nat.le_of_eq hlong.symm), List.take_take, Nat.min_self]
    exact hparent.symm
  · refine ⟨g.tree.size, node, ?_, ?_, ?_, hkeys, ?_⟩
    · exact List.getLast?_concat
    · simp [ContextTree.size]
    · rw [hsize]
      exact List.getElem?_concat_length
    · exact List.getElem?_concat_length

/-- The root is entered in an empty tree. -/
theorem entered_root (node : Node) (hkeys : node.keys = []) :
    ∃ c, c.toScope = node.scope ∧
      Entered [node] [] [] c (Growth.step {} (.opened [] node.scope)) :=
  ⟨_, rfl, mirrors_singleton hkeys, rfl, nofun, rfl, rfl, 0, node, rfl, rfl, rfl, hkeys, rfl⟩

end Branches

end Schema
end ClientForge
