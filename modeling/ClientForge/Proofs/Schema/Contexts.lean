import ClientForge.Proofs.ContextTree.Mirror
import ClientForge.Proofs.Schema.Attribute
import ClientForge.Proofs.Schema.Reach
/-!
# Contexts of a document

`documentNodes` lists the nodes of a document: the root, then each member in order, an API set
followed by its own members.  After a request a binder's contexts are these nodes, all of them if
the document was bound, and otherwise those up to the place where binding stopped
(`eachStep_shows_bindAll`).  Nothing is left of earlier requests.

Binding leaves events and may stop at any of its steps.  `Recorded.Runs` therefore has one condition
for the tree where a step fails and one for the tree where it answers; what was entered keeps its
place in the list in both cases.

References are read in scopes that binding hands down from node to node.  Each time a node is
entered, these are the scopes of its new context and of the contexts above it
(`showsLineage_of_opened`).
-/

namespace ClientForge
namespace Schema

/-! ## Nodes in document order -/

mutual

/-- The nodes at and below the members among entries, in order. -/
def memberNodes (path : KeyPath) : Entries → List Node
  | [] => []
  | (key, value) :: rest =>
    match key with
    | .str k =>
      if SchemaName.isAttributeKey k then memberNodes path rest
      else nodesAt (path ++ [k]) k value ++ memberNodes path rest
    | _ => memberNodes path rest

/-- A member, and behind an API set its own members. -/
def nodesAt (path : KeyPath) (key : String) (value : Value) : List Node :=
  match SchemaName.setName? key, value with
  | some name, .map entries => ⟨.apiSet, name, path⟩ :: memberNodes path entries
  | some name, _ => [⟨.apiSet, name, path⟩]
  | none, _ => [⟨.action, key, path⟩]

end

/-- The nodes of a document, root first; a value that is no mapping has none. -/
def documentNodes (asked : Option String) : Value → List Node
  | .map entries =>
    ⟨.client, (chooseClassName asked (Value.field "$as" entries)).text?.getD "", []⟩ ::
      memberNodes [] entries
  | _ => []

/-! ## Keys of nodes -/

/-- A key that can be told apart in a dotted path. -/
def IsPlainKey (key : String) : Prop :=
  key ≠ "" ∧ '.' ∉ key.toList

theorem isPlainKey_of_isMemberName {key : String}
    (h : SchemaName.isMemberName (memberName key) = true) : IsPlainKey key := by
  cases hkey : SchemaName.setName? key with
  | some name =>
      rw [memberName_of_setName? hkey] at h
      exact undotted_of_isSet ⟨name, hkey, h⟩
  | none =>
      rw [memberName_of_setName?_none hkey] at h
      refine ⟨?_, SchemaName.dot_not_mem_of_isMemberName h⟩
      rintro rfl
      revert h
      decide

/-- Nodes at or below the member with a key: distinct, with plain keys further down. -/
structure Within (path : KeyPath) (key : String) (nodes : List Node) : Prop where
  keys : ∀ node ∈ nodes, ∃ rest, node.keys = path ++ key :: rest ∧ ∀ k ∈ rest, IsPlainKey k
  nodup : (nodes.map Node.keys).Nodup

/-- Nodes below a path: distinct, with plain keys, and not below members of the taken names. -/
structure Below (path : KeyPath) (taken : List String) (nodes : List Node) : Prop where
  keys : ∀ node ∈ nodes, ∃ key rest, node.keys = path ++ key :: rest ∧ memberName key ∉ taken ∧
    ∀ k ∈ key :: rest, IsPlainKey k
  nodup : (nodes.map Node.keys).Nodup

theorem within_nil (path : KeyPath) (key : String) : Within path key [] :=
  ⟨nofun, List.nodup_nil⟩

theorem below_nil (path : KeyPath) (taken : List String) : Below path taken [] :=
  ⟨nofun, List.nodup_nil⟩

/-- A node and those below it. -/
theorem Below.within {path : KeyPath} {key : String} {node : Node} {nodes : List Node}
    (hnode : node.keys = path ++ [key]) (h : Below (path ++ [key]) [] nodes) :
    Within path key (node :: nodes) := by
  refine ⟨?_, ?_⟩
  · intro other hother
    rcases List.mem_cons.mp hother with rfl | hmem
    · exact ⟨[], hnode, nofun⟩
    · obtain ⟨next, rest, hkeys, -, hplain⟩ := h.keys other hmem
      exact ⟨next :: rest, by rw [hkeys, List.append_assoc]; rfl, hplain⟩
  · rw [List.map_cons, List.nodup_cons]
    refine ⟨?_, h.nodup⟩
    intro hmem
    obtain ⟨other, hother, heq⟩ := List.mem_map.mp hmem
    obtain ⟨next, rest, hkeys, -, -⟩ := h.keys other hother
    rw [heq, hnode, List.self_eq_append_right] at hkeys
    cases hkeys

/-- A member's nodes before those of its later siblings. -/
theorem Within.append {path : KeyPath} {key : String} {taken : List String}
    {first nodes : List Node} (h : Within path key first) (hkey : IsPlainKey key)
    (hnew : memberName key ∉ taken) (hrest : Below path (taken ++ [memberName key]) nodes) :
    Below path taken (first ++ nodes) := by
  refine ⟨?_, ?_⟩
  · intro node hnode
    rcases List.mem_append.mp hnode with hmem | hmem
    · obtain ⟨rest, hkeys, hplain⟩ := h.keys node hmem
      exact ⟨key, rest, hkeys, hnew, List.forall_mem_cons.mpr ⟨hkey, hplain⟩⟩
    · obtain ⟨next, rest, hkeys, hfree, hplain⟩ := hrest.keys node hmem
      exact ⟨next, rest, hkeys, fun hmem => hfree (List.mem_append_left _ hmem), hplain⟩
  · rw [List.map_append, List.nodup_append]
    refine ⟨h.nodup, hrest.nodup, ?_⟩
    rintro keys hkeys other hother rfl
    -- the first key below the path is the member's own on one side only
    obtain ⟨node, hnode, hleft⟩ := List.mem_map.mp hkeys
    obtain ⟨node', hnode', hright⟩ := List.mem_map.mp hother
    obtain ⟨rest, hkeys, -⟩ := h.keys node hnode
    obtain ⟨next, rest', hkeys', hfree, -⟩ := hrest.keys node' hnode'
    rw [← hleft, hkeys, hkeys'] at hright
    obtain ⟨rfl, -⟩ := List.cons.inj (List.append_cancel_left hright)
    exact hfree (List.mem_append_right _ (List.mem_singleton.mpr rfl))

/-! ## Computations on a growing tree -/

/-- Each time a node is entered, the scopes around it are those of the contexts above its own. -/
def FollowsTree (g : Growth) : List Event → Prop
  | [] => True
  | event :: rest =>
    (∀ enclosing scope, event = .opened enclosing scope →
      (g.step event).ShowsLineage (scope :: enclosing)) ∧ FollowsTree (g.step event) rest

theorem FollowsTree.append {g : Growth} {first second : List Event} (h : FollowsTree g first)
    (h' : FollowsTree (first.foldl Growth.step g) second) : FollowsTree g (first ++ second) := by
  induction first generalizing g with
  | nil => exact h'
  | cons event rest ih => exact ⟨h.1, ih h.2 h'⟩

theorem FollowsTree.showsLineage {g : Growth} {before after : List Event} {enclosing : List Scope}
    {scope : Scope} (h : FollowsTree g (before ++ .opened enclosing scope :: after)) :
    ((before.foldl Growth.step g).step (.opened enclosing scope)).ShowsLineage
      (scope :: enclosing) := by
  induction before generalizing g with
  | nil => exact h.1 enclosing scope rfl
  | cons event rest ih => exact ih h.2

namespace Recorded

variable {α β : Type}

/-- What a computation makes of a growing tree: one condition for where it fails, and one for where
it answers.  On the way the scopes that are handed down follow the tree. -/
structure Runs (x : Recorded α) (g : Growth) (Fails : Growth → Prop)
    (Ends : α → Growth → Prop) : Prop where
  follows : FollowsTree g x.events
  fails : ∀ failure, x.result = .error failure → Fails (x.events.foldl Growth.step g)
  ends : ∀ a, x.result = .ok a → Ends a (x.events.foldl Growth.step g)

section Runs

variable {x : Recorded α} {f : α → Recorded β} {g : Growth} {Fails : Growth → Prop}
  {Ends : β → Growth → Prop}

theorem runs_pure {b : β} (h : Ends b g) : Runs (pure b) g Fails Ends := by
  refine ⟨trivial, nofun, ?_⟩
  rintro _ ⟨⟩
  exact h

theorem runs_fail {path : KeyPath} {cause : Cause} (h : Fails g) :
    Runs (fail path cause) g Fails Ends :=
  ⟨trivial, fun _ _ => h, nofun⟩

theorem Runs.bind {Fails' : Growth → Prop} {Mid : α → Growth → Prop} (hx : Runs x g Fails' Mid)
    (hfails : ∀ g', Fails' g' → Fails g') (hf : ∀ a g', Mid a g' → Runs (f a) g' Fails Ends) :
    Runs (x >>= f) g Fails Ends := by
  change Runs (Recorded.bind x f) g Fails Ends
  unfold Recorded.bind
  cases hresult : x.result with
  | error failure => exact ⟨hx.follows, fun _ _ => hfails _ (hx.fails failure hresult), nofun⟩
  | ok a =>
      have hrest := hf a _ (hx.ends a hresult)
      refine ⟨hx.follows.append hrest.follows, ?_, ?_⟩
      · intro failure hfailure
        dsimp only at hfailure ⊢
        rw [List.foldl_append]
        exact hrest.fails failure hfailure
      · intro b hb
        dsimp only at hb ⊢
        rw [List.foldl_append]
        exact hrest.ends b hb

theorem runs_opened_bind {enclosing : List Scope} {scope : Scope} {f : Unit → Recorded β}
    (hshows : (g.step (.opened enclosing scope)).ShowsLineage (scope :: enclosing))
    (h : Runs (f ()) (g.step (.opened enclosing scope)) Fails Ends) :
    Runs (record (.opened enclosing scope) >>= f) g Fails Ends := by
  refine ⟨⟨?_, h.follows⟩, h.fails, h.ends⟩
  rintro _ _ ⟨⟩
  exact hshows

theorem runs_assigned_bind {name : String} {value : Attribute} {f : Unit → Recorded β}
    (h : Runs (f ()) (g.step (.assigned name value)) Fails Ends) :
    Runs (record (.assigned name value) >>= f) g Fails Ends :=
  ⟨⟨nofun, h.follows⟩, h.fails, h.ends⟩

theorem runs_noted_bind {text : String} {f : Unit → Recorded β} (h : Runs (f ()) g Fails Ends) :
    Runs (record (.noted text) >>= f) g Fails Ends :=
  ⟨⟨nofun, h.follows⟩, h.fails, h.ends⟩

theorem runs_ofChecked_bind {answer : Except Failure α} (hfails : Fails g)
    (h : ∀ a, answer = .ok a → Runs (f a) g Fails Ends) :
    Runs (ofChecked answer >>= f) g Fails Ends := by
  cases answer with
  | error failure => exact ⟨trivial, fun _ _ => hfails, nofun⟩
  | ok a => exact ⟨(h a rfl).follows, (h a rfl).fails, (h a rfl).ends⟩

theorem runs_ofExcept_bind {path : KeyPath} {answer : Except Cause α} (hfails : Fails g)
    (h : ∀ a, answer = .ok a → Runs (f a) g Fails Ends) :
    Runs (ofExcept path answer >>= f) g Fails Ends := by
  cases answer with
  | error cause => exact ⟨trivial, fun _ _ => hfails, nofun⟩
  | ok a => exact ⟨(h a rfl).follows, (h a rfl).fails, (h a rfl).ends⟩

end Runs
end Recorded

open Recorded

/-- A tree that has taken some of the planned nodes, from the first on. -/
def Partly (Shape : List Node → Prop) (nodes planned : List Node) (g : Growth) : Prop :=
  ∃ more, more <+: planned ∧ Shape more ∧ Mirrors (nodes ++ more) g.tree

/-- A tree that has taken all planned nodes and is back at a path. -/
def Wholly (Shape : List Node → Prop) (nodes planned : List Node) (path : KeyPath)
    (lineage : List Scope) (g : Growth) : Prop :=
  Shape planned ∧ Grown (nodes ++ planned) path lineage g

section Walk

variable {nodes planned : List Node} {path : KeyPath} {key : String} {g : Growth}
  {enclosing : List Scope}

/-- Nothing was taken yet. -/
theorem partly_none {Shape : List Node → Prop} (hshape : Shape []) (h : Mirrors nodes g.tree) :
    Partly Shape nodes planned g :=
  ⟨[], List.nil_prefix, hshape, by rw [List.append_nil]; exact h⟩

/-- The first node was taken. -/
theorem Entered.partly {node : Node} {c : Context} (hkeys : node.keys = path ++ [key])
    (h : Entered (nodes ++ [node]) (path ++ [key]) enclosing c g) :
    Partly (Within path key) nodes (node :: planned) g :=
  ⟨[node], List.prefix_append [node] planned, (below_nil _ _).within hkeys, h.mirrors⟩

/-- An action is entered, or it is not; what fails afterwards only concerns its attributes. -/
theorem runs_bindAction (hgrown : Grown nodes path enclosing g) (entries : Entries) :
    Runs (bindAction enclosing key (path ++ [key]) entries) g
      (Partly (Within path key) nodes [⟨.action, key, path ++ [key]⟩])
      (fun _ => Wholly (Within path key) nodes [⟨.action, key, path ++ [key]⟩] path
        enclosing) := by
  unfold bindAction
  apply runs_ofChecked_bind (partly_none (within_nil path key) hgrown.mirrors)
  intro _ _
  obtain ⟨c, hscope, hentered⟩ := hgrown.opened ⟨.action, key, path ++ [key]⟩ rfl
  apply runs_opened_bind (hentered.showsLineage hscope)
  apply runs_ofExcept_bind (hentered.partly rfl)
  intro url _
  have hurl := hentered.assigned "url" (.url url)
  apply runs_assigned_bind
  apply runs_ofExcept_bind (hurl.partly rfl)
  intro method _
  have hmethod := hurl.assigned "method" (.value (.str method.name))
  apply runs_assigned_bind
  apply runs_ofExcept_bind (hmethod.partly rfl)
  intro pathParams _
  apply runs_ofChecked_bind (hmethod.partly rfl)
  intro queryParams _
  apply runs_ofChecked_bind (hmethod.partly rfl)
  intro bodyParams _
  have hparams := hmethod.assigned "params" (.params queryParams)
  apply runs_assigned_bind
  have hdata := hparams.assigned "data" (.params bodyParams)
  apply runs_assigned_bind
  apply runs_ofExcept_bind (hdata.partly rfl)
  intro _ _
  apply runs_noted_bind
  apply runs_pure
  exact ⟨(below_nil _ _).within rfl, hdata.leave⟩

/-- All or some of the members among entries are taken. -/
def MembersGrow (entries : Entries) : Prop :=
  ∀ (lineage : List Scope) (path : KeyPath) (seen : List (String × String)) (nodes : List Node)
    (g : Growth), Grown nodes path lineage g →
    Runs (bindMembers lineage path seen entries) g
      (Partly (Below path (seen.map Prod.fst)) nodes (memberNodes path entries))
      (fun _ => Wholly (Below path (seen.map Prod.fst)) nodes (memberNodes path entries) path
        lineage)

/-- An API set is entered once its keys are checked, and takes its members once its URL is
resolved. -/
theorem runs_bindMember_set {name : String} (hkey : SchemaName.setName? key = some name)
    (hgrown : Grown nodes path enclosing g) {entries : Entries} (hnested : MembersGrow entries) :
    Runs (bindMember enclosing (path ++ [key]) key (.map entries)) g
      (Partly (Within path key) nodes (nodesAt (path ++ [key]) key (.map entries)))
      (fun _ => Wholly (Within path key) nodes (nodesAt (path ++ [key]) key (.map entries)) path
        enclosing) := by
  have hplanned : nodesAt (path ++ [key]) key (.map entries) =
      ⟨.apiSet, name, path ++ [key]⟩ :: memberNodes (path ++ [key]) entries := by
    rw [nodesAt]
    simp only [hkey]
  rw [hplanned]
  unfold bindMember
  simp only [hkey]
  split
  · exact runs_fail (partly_none (within_nil path key) hgrown.mirrors)
  · apply runs_ofChecked_bind (partly_none (within_nil path key) hgrown.mirrors)
    intro _ _
    obtain ⟨c, hscope, hentered⟩ := hgrown.opened ⟨.apiSet, name, path ++ [key]⟩ rfl
    apply runs_opened_bind (hentered.showsLineage hscope)
    apply runs_ofExcept_bind (hentered.partly rfl)
    intro url _
    have hurl := hentered.assigned "url" (.url url)
    have hinside := hurl.grown (Context.isOpen_assign_url hscope (Or.inr rfl) url)
    rw [Context.toScope_assign, hscope] at hinside
    apply runs_assigned_bind
    apply runs_noted_bind
    refine Runs.bind (hnested _ (path ++ [key]) [] _ _ hinside) ?_ ?_
    · rintro g' ⟨more, hmore, hshape, hmirrors⟩
      refine ⟨_ :: more, List.prefix_cons_inj _ |>.mpr hmore, hshape.within rfl, ?_⟩
      rw [List.append_assoc] at hmirrors
      exact hmirrors
    · rintro members g' ⟨hshape, hback⟩
      apply runs_pure
      refine ⟨hshape.within rfl, ?_⟩
      rw [List.append_assoc] at hback
      exact hback.leave

/-- One member, whatever stands under its key. -/
theorem runs_bindMember (key : String) (hgrown : Grown nodes path enclosing g) {value : Value}
    (hnested : ∀ entries, value = .map entries → MembersGrow entries) :
    Runs (bindMember enclosing (path ++ [key]) key value) g
      (Partly (Within path key) nodes (nodesAt (path ++ [key]) key value))
      (fun _ => Wholly (Within path key) nodes (nodesAt (path ++ [key]) key value) path
        enclosing) := by
  have hnone : Partly (Within path key) nodes (nodesAt (path ++ [key]) key value) g :=
    partly_none (within_nil path key) hgrown.mirrors
  cases hkey : SchemaName.setName? key with
  | some name =>
      cases value with
      | map entries => exact runs_bindMember_set hkey hgrown (hnested entries rfl)
      | _ =>
          unfold bindMember
          simp only [hkey]
          exact runs_fail hnone
  | none =>
      have hplanned : nodesAt (path ++ [key]) key value = [⟨.action, key, path ++ [key]⟩] := by
        unfold nodesAt
        simp only [hkey]
      rw [hplanned] at hnone ⊢
      cases value with
      | null =>
          unfold bindMember
          simp only [hkey]
          exact (runs_bindAction hgrown []).bind (fun _ => id) fun _ _ h => runs_pure h
      | map entries =>
          unfold bindMember
          simp only [hkey]
          exact (runs_bindAction hgrown entries).bind (fun _ => id) fun _ _ h => runs_pure h
      | _ =>
          unfold bindMember
          simp only [hkey]
          exact runs_fail hnone

end Walk

/-- Entries that declare no member have no node. -/
theorem memberNodes_cons_of_not_member {entry : Value × Value} (h : declaresMember entry = false)
    (path : KeyPath) (rest : Entries) :
    memberNodes path (entry :: rest) = memberNodes path rest := by
  obtain ⟨key, value⟩ := entry
  cases key with
  | str k =>
      have hk : SchemaName.isAttributeKey k = true := by simpa [declaresMember] using h
      rw [memberNodes]
      simp only [hk, if_true]
  | _ =>
      rw [memberNodes]
      intro k hk
      contradiction

/-- Members are taken one after the other, each with all that is below it. -/
theorem membersGrow (entries : Entries) : MembersGrow entries := by
  intro lineage path seen nodes g hgrown
  match entries with
  | [] =>
      rw [bindMembers, memberNodes]
      apply runs_pure
      refine ⟨below_nil _ _, ?_⟩
      rw [List.append_nil]
      exact hgrown
  | (key, value) :: rest =>
      cases hentry : declaresMember (key, value) with
      | false =>
          rw [bindMembers_cons_of_not_member hentry, memberNodes_cons_of_not_member hentry]
          exact membersGrow rest lineage path seen nodes g hgrown
      | true =>
          obtain ⟨k, rfl, hk⟩ : ∃ k, key = .str k ∧ SchemaName.isAttributeKey k = false :=
            exists_key_of_declaresMember hentry
          rw [bindMembers, memberNodes]
          simp only [hk, Bool.false_eq_true, if_false]
          apply runs_ofExcept_bind (partly_none (below_nil _ _) hgrown.mirrors)
          intro _ hname
          obtain ⟨hvalid, hnew⟩ := checkMemberName_eq_ok_iff.mp hname
          have hplain := isPlainKey_of_isMemberName hvalid
          have hmember := runs_bindMember k hgrown
            fun inner (hinner : value = .map inner) => membersGrow inner
          refine hmember.bind ?_ ?_
          · rintro g' ⟨more, hmore, hshape, hmirrors⟩
            refine ⟨more, hmore.trans (List.prefix_append _ _), ?_, hmirrors⟩
            have hbelow := hshape.append hplain hnew (below_nil _ _)
            rwa [List.append_nil] at hbelow
          · rintro member g' ⟨hshape, hgrown'⟩
            have hrest := membersGrow rest lineage path (seen ++ [(memberName k, k)]) _ g' hgrown'
            rw [List.map_append] at hrest
            refine hrest.bind ?_ ?_
            · rintro g'' ⟨more, hmore, hbelow, hmirrors⟩
              refine ⟨_ ++ more, (List.prefix_append_right_inj _).mpr hmore,
                hshape.append hplain hnew hbelow, ?_⟩
              rwa [List.append_assoc] at hmirrors
            · rintro members g'' ⟨hbelow, hgrown''⟩
              apply runs_pure
              refine ⟨hshape.append hplain hnew hbelow, ?_⟩
              rwa [List.append_assoc] at hgrown''
termination_by sizeOf entries
decreasing_by
  · simp only [List.cons.sizeOf_spec]
    omega
  · rw [hinner]
    simp only [List.cons.sizeOf_spec, Prod.mk.sizeOf_spec, Value.map.sizeOf_spec]
    omega
  · simp only [List.cons.sizeOf_spec]
    omega

/-! ## Documents -/

/-- Distinct nodes whose keys can be read off their paths. -/
structure Rooted (nodes : List Node) : Prop where
  plain : ∀ node ∈ nodes, ∀ key ∈ node.keys, IsPlainKey key
  nodup : (nodes.map Node.keys).Nodup

theorem rooted_nil : Rooted [] :=
  ⟨nofun, List.nodup_nil⟩

/-- The root and what is below it. -/
theorem Below.rooted {root : Node} {nodes : List Node} (hroot : root.keys = [])
    (h : Below [] [] nodes) : Rooted (root :: nodes) := by
  refine ⟨?_, ?_⟩
  · intro node hnode key hkey
    rcases List.mem_cons.mp hnode with rfl | hmem
    · rw [hroot] at hkey
      cases hkey
    · obtain ⟨first, rest, hkeys, -, hplain⟩ := h.keys node hmem
      rw [hkeys] at hkey
      exact hplain key hkey
  · rw [List.map_cons, List.nodup_cons]
    refine ⟨?_, h.nodup⟩
    intro hmem
    obtain ⟨node, hnode, heq⟩ := List.mem_map.mp hmem
    obtain ⟨first, rest, hkeys, -, -⟩ := h.keys node hnode
    rw [heq, hroot] at hkeys
    cases hkeys

/-- Paths of distinct nodes differ. -/
theorem Rooted.nodup_dotted {nodes : List Node} (h : Rooted nodes) :
    (nodes.map fun node => node.keys.dotted).Nodup := by
  have hmap : nodes.map (fun node => node.keys.dotted) =
      (nodes.map Node.keys).map KeyPath.dotted := by
    rw [List.map_map]
    rfl
  rw [hmap]
  refine h.nodup.map_on ?_
  intro keys hkeys keys' hkeys' heq
  obtain ⟨node, hnode, rfl⟩ := List.mem_map.mp hkeys
  obtain ⟨node', hnode', rfl⟩ := List.mem_map.mp hkeys'
  exact KeyPath.dotted_inj (h.plain node hnode) (h.plain node' hnode') heq

/-- Binding a document takes its nodes from the root on, all of them if it answers. -/
theorem runs_bindDocument (document : Value) (asked : Option String) :
    Runs (bindDocument document asked) {} (Partly Rooted [] (documentNodes asked document))
      (fun _ g => Rooted (documentNodes asked document) ∧
        Mirrors (documentNodes asked document) g.tree) := by
  have hnone : Partly Rooted [] (documentNodes asked document) {} :=
    partly_none rooted_nil mirrors_empty
  cases document with
  | map entries =>
      unfold bindDocument
      apply runs_ofChecked_bind hnone
      intro _ _
      apply runs_ofExcept_bind hnone
      intro name hname
      obtain ⟨hchosen, -⟩ := readClassName_eq_ok_iff.mp hname
      have hplanned : documentNodes asked (.map entries) =
          ⟨.client, name, []⟩ :: memberNodes [] entries := by
        rw [documentNodes, hchosen]
        rfl
      rw [hplanned]
      obtain ⟨c, hscope, hentered⟩ := entered_root ⟨.client, name, []⟩ rfl
      apply runs_opened_bind (hentered.showsLineage hscope)
      apply runs_ofExcept_bind
      · exact ⟨[⟨.client, name, []⟩], List.prefix_append _ _, (below_nil _ _).rooted rfl,
          hentered.mirrors⟩
      intro url _
      have hurl := hentered.assigned "url" (.url ⟨[.base url]⟩)
      have hinside := hurl.grown (Context.isOpen_assign_url hscope (Or.inl rfl) ⟨[.base url]⟩)
      rw [Context.toScope_assign, hscope] at hinside
      apply runs_assigned_bind
      refine Runs.bind (membersGrow entries _ [] [] _ _ hinside) ?_ ?_
      · rintro g' ⟨more, hmore, hshape, hmirrors⟩
        exact ⟨_ :: more, (List.prefix_cons_inj _).mpr hmore, hshape.rooted rfl, hmirrors⟩
      · rintro members g' ⟨hshape, hgrown⟩
        apply runs_noted_bind
        apply runs_pure
        exact ⟨hshape.rooted rfl, hgrown.mirrors⟩
  | _ => exact runs_fail hnone

/-- When a node is entered, the scopes in which its references are read, its own and those handed
down to it, are the lineage of the context that the tree has just got for it. -/
theorem showsLineage_of_opened {document : Value} {asked : Option String}
    {before after : List Event} {enclosing : List Scope} {scope : Scope}
    (h : (bindDocument document asked).events = before ++ .opened enclosing scope :: after) :
    ((before.foldl Growth.step {}).step (.opened enclosing scope)).ShowsLineage
      (scope :: enclosing) := by
  have hfollows := (runs_bindDocument document asked).follows
  rw [h] at hfollows
  exact hfollows.showsLineage

/-! ## Binders -/

/-- The contexts of a tree are nodes in their order.  Each has the kind, the name and the dotted
keys of its node, and is as deep as there are keys; only the root has no parent, and every other
parent is the context of the node one key further up.  No two paths are the same, and what stands
above a context is a client or an API set that has resolved its URL and nothing else. -/
structure ShowsNodes (nodes : List Node) (t : ContextTree) : Prop where
  size_eq : t.size = nodes.length
  context : ∀ (i : Nat) (node : Node) (c : Context), nodes[i]? = some node →
    t.contexts[i]? = some c → c.index = i ∧ c.kind = node.kind ∧ c.name = node.name ∧
      c.path = node.keys.dotted ∧ t.depth c = node.keys.length
  parent : ∀ (i : Nat) (node : Node) (c : Context), nodes[i]? = some node →
    t.contexts[i]? = some c → node.keys = [] ∧ t.parentOf c = none ∨
      ∃ (j : Nat) (outer : Node) (up : Context) (key : String), nodes[j]? = some outer ∧
        t.contexts[j]? = some up ∧ node.keys = outer.keys ++ [key] ∧ t.parentOf c = some up
  distinct : (t.contexts.map fun c => c.path).Nodup
  above : ∀ c ∈ t.contexts, ∀ up ∈ t.ancestors c,
    (up.kind = .client ∨ up.kind = .apiSet) ∧ up.attributes.map Prod.fst = ["url"]

/-- What mirrors distinct nodes shows them. -/
theorem Mirrors.showsNodes {nodes : List Node} {t : ContextTree} (h : Mirrors nodes t)
    (hnodes : Rooted nodes) : ShowsNodes nodes t where
  size_eq := h.size_eq
  context := by
    intro i node c hnode hc
    obtain ⟨node', hnode', hlabel⟩ := h.exists_node hc
    obtain rfl : node = node' := Option.some.inj (hnode.symm.trans hnode')
    obtain ⟨hkind, hrest⟩ := Prod.mk.inj hlabel
    obtain ⟨hname, hpath⟩ := Prod.mk.inj hrest
    exact ⟨h.linked.index_eq hc, hkind, hname, hpath, h.depth_eq hc hnode⟩
  parent := by
    intro i node c hnode hc
    unfold ContextTree.parentOf
    cases hparent : c.parent with
    | none =>
        obtain rfl : i = 0 := (h.linked.parent_eq_none_iff hc).mp hparent
        rw [ContextTree.ancestors_eq_nil hparent]
        exact Or.inl ⟨h.top hnode, rfl⟩
    | some j =>
        obtain ⟨inner, outer, key, up, hinner, houter, hkeys, hup, -⟩ := h.enclosed hc hparent
        obtain rfl : node = inner := Option.some.inj (hnode.symm.trans hinner)
        rw [h.linked.ancestors_eq_cons hc hparent hup]
        exact Or.inr ⟨j, outer, up, key, houter, hup, hkeys, rfl⟩
  distinct := by
    have hpaths : t.contexts.map (fun c => c.path) = nodes.map fun node => node.keys.dotted := by
      have hlabels := congrArg (List.map fun label => label.2.2) h.labels
      rw [List.map_map, List.map_map] at hlabels
      exact hlabels
    rw [hpaths]
    exact hnodes.nodup_dotted
  above := by
    intro c hc up hup
    obtain ⟨i, hi⟩ := List.mem_iff_getElem?.mp hc
    exact h.isOpen_of_mem_ancestors hi hup

namespace Binder

/-- After a request a binder shows nodes of the request's document, from the root on, and all of
them if the document was bound.  The binder from before has no part in it. -/
def ShowsRequest (_ : Binder) (request : Request) (out : Binder × Except Failure Client) : Prop :=
  ∃ nodes, nodes <+: documentNodes request.asked request.document ∧
    (∀ client, out.2 = .ok client → nodes = documentNodes request.asked request.document) ∧
    ShowsNodes nodes out.1.tree

theorem showsRequest_bind (binder : Binder) (request : Request) :
    ShowsRequest binder request (binder.bind request) := by
  have hruns := runs_bindDocument request.document request.asked
  have hout : binder.bind request =
      (⟨((bindDocument request.document request.asked).events.foldl Growth.step {}).tree⟩,
        (bindDocument request.document request.asked).result) := rfl
  rw [hout]
  cases hresult : (bindDocument request.document request.asked).result with
  | error failure =>
      obtain ⟨nodes, hplanned, hrooted, hmirrors⟩ := hruns.fails failure hresult
      exact ⟨nodes, hplanned, nofun, hmirrors.showsNodes hrooted⟩
  | ok client =>
      obtain ⟨hrooted, hmirrors⟩ := hruns.ends client hresult
      exact ⟨_, List.prefix_rfl, fun _ _ => rfl, hmirrors.showsNodes hrooted⟩

/-- Whatever documents a binder is given one after the other, after each of them it shows the nodes
of that document. -/
theorem eachStep_shows_bindAll (binder : Binder) (requests : List Request) :
    EachStep ShowsRequest binder requests (bindAll binder requests) := by
  apply eachStep_session_of_forall
  intro before request
  exact showsRequest_bind before request

end Binder
end Schema
end ClientForge
