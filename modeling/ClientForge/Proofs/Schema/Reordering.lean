import ClientForge.Proofs.Document.Order
import ClientForge.Proofs.Schema.Attribute
/-!
# Binding and the order of keys

A client keeps the order of the document that it is bound from, and nothing else of it depends on
that order: documents that differ in the order of keys can both be bound or neither, and the clients
are the same up to the order of sets, actions and declared parameters (`bindDocument_reordered`).
If only attributes are moved among the members, the clients are equal.

Siblings are bound one after the other, each against the names seen before it.  By
`bindMembers_eq_ok_iff` that comes to one condition on all names, which holds in any order, and to
each member being bound on its own.
-/

namespace ClientForge

/-! ## Bound trees -/

/-- Actions that differ in the order of their declared parameters. -/
structure Action.SameUpToOrder (a a' : Action) : Prop where
  name_eq : a.name = a'.name
  path_eq : a.path = a'.path
  method_eq : a.method = a'.method
  url_eq : a.url = a'.url
  pathParams_eq : a.pathParams = a'.pathParams
  queryParams : a.queryParams.Perm a'.queryParams
  bodyParams : a.bodyParams.Perm a'.bodyParams

/-- API sets that differ in the order of the sets and actions in them, and of the declared
parameters of the actions, at any depth. -/
inductive ApiSet.SameUpToOrder : ApiSet → ApiSet → Prop
  | mk {set set' : ApiSet} {sets : List ApiSet} {actions : List Action}
      (name_eq : set.name = set'.name) (path_eq : set.path = set'.path)
      (url_eq : set.url = set'.url) (sets_match : List.Forall₂ SameUpToOrder set.sets sets)
      (sets_perm : sets.Perm set'.sets)
      (actions_match : List.Forall₂ Action.SameUpToOrder set.actions actions)
      (actions_perm : actions.Perm set'.actions) : SameUpToOrder set set'

/-- Clients that differ in the order of sets, actions and declared parameters. -/
structure Client.SameUpToOrder (client client' : Client) : Prop where
  className_eq : client.className = client'.className
  url_eq : client.url = client'.url
  root : client.root.SameUpToOrder client'.root

theorem Action.SameUpToOrder.refl (a : Action) : a.SameUpToOrder a :=
  ⟨rfl, rfl, rfl, rfl, rfl, List.Perm.refl _, List.Perm.refl _⟩

mutual

theorem ApiSet.SameUpToOrder.refl : (set : ApiSet) → set.SameUpToOrder set
  | ⟨_, _, _, sets, actions⟩ => by
      refine ApiSet.SameUpToOrder.mk rfl rfl rfl (forall₂_sameUpToOrder sets) (List.Perm.refl sets)
        ?_ (List.Perm.refl actions)
      exact List.forall₂_same.mpr fun a _ => Action.SameUpToOrder.refl a

private theorem forall₂_sameUpToOrder : (sets : List ApiSet) →
    List.Forall₂ ApiSet.SameUpToOrder sets sets
  | [] => List.Forall₂.nil
  | set :: rest =>
      List.Forall₂.cons (ApiSet.SameUpToOrder.refl set) (forall₂_sameUpToOrder rest)

end

namespace Schema

open Value (EntriesReordered)

/-- Members that differ in the order of what is in them. -/
inductive Member.SameUpToOrder : Member → Member → Prop
  | set {s s' : ApiSet} (same : s.SameUpToOrder s') : SameUpToOrder (.set s) (.set s')
  | action {a a' : Action} (same : a.SameUpToOrder a') : SameUpToOrder (.action a) (.action a')

theorem forall₂_memberSets {members members' : List Member}
    (h : List.Forall₂ Member.SameUpToOrder members members') :
    List.Forall₂ ApiSet.SameUpToOrder (memberSets members) (memberSets members') := by
  refine List.rel_filterMap ?_ h
  intro member member' hmember
  cases hmember with
  | set same => exact Option.Rel.some same
  | action same => exact Option.Rel.none

theorem forall₂_memberActions {members members' : List Member}
    (h : List.Forall₂ Member.SameUpToOrder members members') :
    List.Forall₂ Action.SameUpToOrder (memberActions members) (memberActions members') := by
  refine List.rel_filterMap ?_ h
  intro member member' hmember
  cases hmember with
  | set same => exact Option.Rel.none
  | action same => exact Option.Rel.some same

/-- Sets that agree in all but their members are the same up to order if the members are. -/
theorem sameUpToOrder_of_members {set set' : ApiSet} {members mid members' : List Member}
    (hname : set.name = set'.name) (hpath : set.path = set'.path) (hurl : set.url = set'.url)
    (hsets : set.sets = memberSets members) (hactions : set.actions = memberActions members)
    (hsets' : set'.sets = memberSets members') (hactions' : set'.actions = memberActions members')
    (hmatch : List.Forall₂ Member.SameUpToOrder members mid) (hperm : mid.Perm members') :
    set.SameUpToOrder set' := by
  have hbelow : List.Forall₂ ApiSet.SameUpToOrder set.sets (memberSets mid) := by
    rw [hsets]
    exact forall₂_memberSets hmatch
  have hcalls : List.Forall₂ Action.SameUpToOrder set.actions (memberActions mid) := by
    rw [hactions]
    exact forall₂_memberActions hmatch
  refine ApiSet.SameUpToOrder.mk hname hpath hurl hbelow ?_ hcalls ?_
  · rw [hsets']
    exact hperm.filterMap _
  · rw [hactions']
    exact hperm.filterMap _

/-! ## Keys in another order -/

section Keys

variable {entries entries' : Entries}

/-- Whether a key belongs into a mapping does not depend on where it stands. -/
theorem checkKeys_of_perm {allowed : List String} {members : Bool} {path : KeyPath}
    (hkeys : (entries.map Prod.fst).Perm (entries'.map Prod.fst))
    (h : checkKeys allowed members path entries = .ok ()) :
    checkKeys allowed members path entries' = .ok () := by
  rw [checkKeys_eq_ok_iff] at h ⊢
  intro entry hentry
  obtain ⟨other, hother, heq⟩ := List.mem_map.mp (hkeys.mem_iff.mpr (List.mem_map_of_mem hentry))
  rw [← heq]
  exact h other hother

/-- A key as that of a member, if it is one. -/
def memberKey? : Value → Option String
  | .str key => if SchemaName.isAttributeKey key then none else some key
  | _ => none

theorem map_fst_memberEntries (entries : Entries) :
    (memberEntries entries).map Prod.fst = (entries.map Prod.fst).filterMap memberKey? := by
  induction entries with
  | nil => rfl
  | cons entry rest ih =>
      obtain ⟨key, node⟩ := entry
      cases key with
      | str k =>
          cases hk : SchemaName.isAttributeKey k with
          | true =>
              have hnone : memberKey? (.str k) = none := by simp [memberKey?, hk]
              rw [memberEntries, if_pos hk, ih, List.map_cons, List.filterMap_cons_none hnone]
          | false =>
              have hsome : memberKey? (.str k) = some k := by simp [memberKey?, hk]
              rw [List.map_cons, List.filterMap_cons_some hsome, ← ih, memberEntries]
              simp [hk]
      | _ =>
          rw [memberEntries, ih, List.map_cons, List.filterMap_cons_none rfl]
          simp

theorem perm_map_fst_memberEntries (hkeys : (entries.map Prod.fst).Perm (entries'.map Prod.fst)) :
    ((memberEntries entries).map Prod.fst).Perm ((memberEntries entries').map Prod.fst) := by
  rw [map_fst_memberEntries, map_fst_memberEntries]
  exact hkeys.filterMap memberKey?

theorem memberNames_eq (entries : Entries) :
    memberNames entries = ((memberEntries entries).map Prod.fst).map memberName := by
  rw [List.map_map]
  rfl

theorem perm_memberNames (hkeys : (entries.map Prod.fst).Perm (entries'.map Prod.fst)) :
    (memberNames entries).Perm (memberNames entries') := by
  rw [memberNames_eq, memberNames_eq]
  exact (perm_map_fst_memberEntries hkeys).map memberName

end Keys

/-! ## Attributes in another order -/

/-- Only null and text can be the type of a declared parameter. -/
theorem null_or_str_of_readParameter {origin : Origin} {key value : Value} {p : Parameter}
    (h : readParameter origin key value = .ok p) : value = .null ∨ ∃ s, value = .str s := by
  obtain ⟨-, -, -, htype⟩ := exists_readParameter_iff.mp ⟨p, h⟩
  rcases htype with hnull | ⟨s, -, hs, -⟩
  · exact Or.inl hnull
  · exact Or.inr ⟨s, hs⟩

theorem null_or_str_of_readRootUrl {scope : Scope} {raw : Value} {url : Option String}
    (h : readRootUrl scope raw = .ok url) : raw = .null ∨ ∃ s, raw = .str s := by
  cases raw with
  | null => exact Or.inl rfl
  | str s => exact Or.inr ⟨s, rfl⟩
  | _ => cases h

theorem exists_str_of_resolveUrl {lineage : List Scope} {raw : Value} {url : UrlTemplate}
    (h : resolveUrl lineage raw = .ok url) : ∃ s, raw = .str s := by
  cases raw with
  | str s => exact ⟨s, rfl⟩
  | _ => cases h

theorem exists_str_of_readMethod {raw : Value} {method : HttpMethod}
    (h : readMethod raw = .ok method) : ∃ s, raw = .str s := by
  cases raw with
  | str s => exact ⟨s, rfl⟩
  | _ => cases h

/-- Where text is read, perhaps in place of null, the same text is read again. -/
theorem orElseNull_of_reordered {raw raw' default : Value} (hraw : raw.Reordered raw')
    (h : ∃ s, orElseNull raw default = .str s) :
    orElseNull raw' default = orElseNull raw default := by
  have hsimple : raw = .null ∨ ∃ s, raw = .str s := by
    cases raw with
    | null => exact Or.inl rfl
    | str s => exact Or.inr ⟨s, rfl⟩
    | _ =>
        obtain ⟨s, hs⟩ := h
        cases hs
  rw [hraw.eq_of_null_or_str hsimple]

/-- Whatever stands under `$as`, a class name that is text is chosen again. -/
theorem chooseClassName_of_reordered {asked : Option String} {own own' : Value} {name : String}
    (hown : own.Reordered own') (h : chooseClassName asked own = .str name) :
    chooseClassName asked own' = .str name := by
  have hchosen : (if own.isTruthy then own else .str "XSClient") = .str name →
      (if own'.isTruthy then own' else .str "XSClient") = .str name := by
    rw [hown.isTruthy_eq]
    cases own.isTruthy with
    | false => exact id
    | true =>
        intro heq
        rw [hown.eq_of_null_or_str (Or.inr ⟨name, heq⟩)]
        exact heq
  cases asked with
  | none => exact hchosen h
  | some first =>
      unfold chooseClassName at h ⊢
      by_cases hfirst : first ≠ ""
      · simpa [hfirst] using h
      · simp only [hfirst, if_false] at h ⊢
        exact hchosen h

/-- Declared parameters in another order are the same parameters in that order. -/
theorem exists_readParams_of_reordered {origin : Origin} {path : KeyPath} {raw raw' : Value}
    {ps : List Parameter} (hraw : raw.Reordered raw') (h : readParams origin path raw = .ok ps) :
    ∃ ps', readParams origin path raw' = .ok ps' ∧ ps.Perm ps' := by
  cases hraw with
  | same => exact ⟨ps, h, List.Perm.refl ps⟩
  | list length values => cases h
  | @map entries entries' keys values =>
      obtain ⟨mid, hmatch, hperm⟩ := exists_perm_of_map_perm keys
      have hread := readParameters_eq_ok_iff.mp h
      -- the types are null or text, so each entry has found its equal
      obtain ⟨_, hmid, hsame⟩ := exists_forall₂_of_forall₂ (S := Eq)
        (R := fun entry p => readParameter origin entry.1 entry.2 = .ok p) hmatch hread (by
          rintro ⟨key, v⟩ ⟨key', v'⟩ p ⟨⟨hv, hv'⟩, hkey⟩ hp
          dsimp only at hkey hp
          subst hkey
          have heq := (values key v v' hv (hperm.subset hv')).eq_of_null_or_str
            (null_or_str_of_readParameter hp)
          exact ⟨p, heq ▸ hp, rfl⟩)
      rw [List.forall₂_eq_eq_eq] at hsame
      subst hsame
      obtain ⟨ps', hps', hback⟩ := List.perm_comp_forall₂ hperm.symm hmid
      exact ⟨ps', readParameters_eq_ok_iff.mpr hps', hback.symm⟩

/-! ## Nodes in another order -/

section Nodes

variable {enclosing : List Scope} {name : String} {path : KeyPath} {entries entries' : Entries}
  {members mid members' : List Member}

/-- An action whose entries are in another order is bound alike. -/
theorem BindsAction.reordered {a : Action} (h : BindsAction enclosing name path entries a)
    (hentries : EntriesReordered entries entries') :
    ∃ a', BindsAction enclosing name path entries' a' ∧ a.SameUpToOrder a' := by
  obtain ⟨queryParams, hquery, hqueryPerm⟩ :=
    exists_readParams_of_reordered (hentries.field "$params") h.queryParams
  obtain ⟨bodyParams, hbody, hbodyPerm⟩ :=
    exists_readParams_of_reordered (hentries.field "$data") h.bodyParams
  have hurl : actionUrl entries' = actionUrl entries :=
    orElseNull_of_reordered (hentries.field "$url") (exists_str_of_resolveUrl h.url)
  have hmethod :=
    orElseNull_of_reordered (hentries.field "$method") (exists_str_of_readMethod h.method)
  refine ⟨⟨name, path, a.method, a.url, a.pathParams, queryParams, bodyParams⟩, ⟨rfl, rfl, ?_, ?_,
    ?_, h.pathParams, hquery, hbody, ?_⟩, h.name_eq, h.path_eq, rfl, rfl, rfl, hqueryPerm,
    hbodyPerm⟩
  · exact checkKeys_of_perm hentries.keys h.keys
  · rw [hurl]
    exact h.url
  · rw [hmethod]
    exact h.method
  · have hperm := (hqueryPerm.append hbodyPerm).map Parameter.name
    exact checkOrigins_eq_ok_iff.mpr (fresh_of_perm (checkOrigins_eq_ok_iff.mp h.origins) hperm)

/-- The same for the node of an action, which may be null. -/
theorem BindsAction.reorderedNode {node node' : Value} {a : Action}
    (h : BindsAction enclosing name path (actionEntries node) a) (hshape : IsActionNode node)
    (hnode : node.Reordered node') :
    ∃ a', IsActionNode node' ∧ BindsAction enclosing name path (actionEntries node') a' ∧
      a.SameUpToOrder a' := by
  cases hnode with
  | same => exact ⟨a, hshape, h, Action.SameUpToOrder.refl a⟩
  | list length values => simp [IsActionNode] at hshape
  | @map _ inner keys values =>
      obtain ⟨a', ha', hsame⟩ := h.reordered ⟨keys, values⟩
      exact ⟨a', Or.inr ⟨inner, rfl⟩, ha', hsame⟩

/-- A set whose entries are in another order is bound alike if the members below it are. -/
theorem BindsSet.reordered {set : ApiSet} (h : BindsSet enclosing name path entries members set)
    (hentries : EntriesReordered entries entries')
    (hnested : (bindMembers ((setScope name path).assign "url" (.url set.url) :: enclosing) path []
      entries').result = .ok members')
    (hmatch : List.Forall₂ Member.SameUpToOrder members mid) (hperm : mid.Perm members') :
    ∃ set', BindsSet enclosing name path entries' members' set' ∧ set.SameUpToOrder set' := by
  have hurl : Value.field "$url" entries' = Value.field "$url" entries :=
    (hentries.field "$url").eq_of_null_or_str (Or.inr (exists_str_of_resolveUrl h.url))
  refine ⟨⟨name, path, set.url, memberSets members', memberActions members'⟩, ⟨rfl, rfl, rfl, rfl,
    ?_, checkKeys_of_perm hentries.keys h.keys, ?_, hnested⟩, ?_⟩
  · rw [hurl]
    exact h.hasUrl
  · rw [hurl]
    exact h.url
  · exact sameUpToOrder_of_members h.name_eq h.path_eq rfl h.sets_eq h.actions_eq rfl rfl hmatch
      hperm

/-- The root is bound alike if the members are. -/
theorem BindsClient.reordered {asked : Option String} {client : Client}
    (h : BindsClient asked entries members client) (hentries : EntriesReordered entries entries')
    (hnested : (bindMembers [(clientScope client.className).assign "url"
      (.url ⟨[.base client.url]⟩)] [] [] entries').result = .ok members')
    (hmatch : List.Forall₂ Member.SameUpToOrder members mid) (hperm : mid.Perm members') :
    ∃ client', BindsClient asked entries' members' client' ∧ client.SameUpToOrder client' := by
  have hurl : Value.field "$url" entries' = Value.field "$url" entries :=
    (hentries.field "$url").eq_of_null_or_str (null_or_str_of_readRootUrl h.url)
  refine ⟨⟨client.className, client.url, ⟨client.className, [], ⟨[.base client.url]⟩,
    memberSets members', memberActions members'⟩⟩, ⟨checkKeys_of_perm hentries.keys h.keys, ?_, ?_,
      hnested, rfl⟩, rfl, rfl, ?_⟩
  · obtain ⟨hchosen, hname⟩ := readClassName_eq_ok_iff.mp h.className
    exact readClassName_eq_ok_iff.mpr
      ⟨chooseClassName_of_reordered (hentries.field "$as") hchosen, hname⟩
  · rw [hurl]
    exact h.url
  · rw [h.root_eq]
    exact sameUpToOrder_of_members rfl rfl rfl rfl rfl rfl rfl hmatch hperm

end Nodes

/-- Siblings in another order are bound to the same members in that order, each of them up to the
order of what is in it. -/
theorem exists_bindMembers_of_reordered {lineage : List Scope} {path : KeyPath}
    {entries entries' : Entries} {members : List Member}
    (hentries : EntriesReordered entries entries')
    (h : (bindMembers lineage path [] entries).result = .ok members) :
    ∃ mid members', (bindMembers lineage path [] entries').result = .ok members' ∧
      List.Forall₂ Member.SameUpToOrder members mid ∧ mid.Perm members' := by
  obtain ⟨hnames, hfresh, hforall⟩ := bindMembers_eq_ok_iff.mp h
  obtain ⟨aligned, hmatch, hperm⟩ :=
    exists_perm_of_map_perm (perm_map_fst_memberEntries hentries.keys)
  have hmember : ∀ key node node' member, (key, node) ∈ memberEntries entries →
      (key, node') ∈ memberEntries entries' →
      (bindMember lineage (path ++ [key]) key node).result = .ok member →
      ∃ member', (bindMember lineage (path ++ [key]) key node').result = .ok member' ∧
        member.SameUpToOrder member' := by
    intro key node node' member hentry hentry' hbind
    have hmem := (mem_memberEntries_iff.mp hentry).1
    have hnode := hentries.values _ _ _ hmem (mem_memberEntries_iff.mp hentry').1
    cases hkey : SchemaName.setName? key with
    | none =>
        obtain ⟨action, hshape, rfl, haction⟩ := (bindMember_action_iff hkey).mp hbind
        obtain ⟨action', hshape', haction', hsame⟩ := haction.reorderedNode hshape hnode
        exact ⟨_, (bindMember_action_iff hkey).mpr ⟨action', hshape', rfl, haction'⟩,
          Member.SameUpToOrder.action hsame⟩
    | some name =>
        obtain ⟨inner, below, set, rfl, rfl, hset⟩ := (bindMember_set_iff hkey).mp hbind
        cases hnode with
        | same => exact ⟨_, hbind, Member.SameUpToOrder.set (ApiSet.SameUpToOrder.refl set)⟩
        | @map _ inner' keys values =>
            obtain ⟨mid, below', hbelow, hmatch', hperm'⟩ :=
              exists_bindMembers_of_reordered ⟨keys, values⟩ hset.nested
            obtain ⟨set', hset', hsame⟩ := hset.reordered ⟨keys, values⟩ hbelow hmatch' hperm'
            exact ⟨_, (bindMember_set_iff hkey).mpr ⟨inner', below', set', rfl, rfl, hset'⟩,
              Member.SameUpToOrder.set hsame⟩
  -- each member finds its partner, and the partners are then put in the order of the entries
  obtain ⟨mid, hmid, hsame⟩ := exists_forall₂_of_forall₂ (S := Member.SameUpToOrder)
    (R := fun entry member =>
      (bindMember lineage (path ++ [entry.1]) entry.1 entry.2).result = .ok member)
    hmatch hforall (by
      rintro ⟨key, node⟩ ⟨key', node'⟩ member ⟨⟨hentry, hentry'⟩, hkey⟩ hbind
      dsimp only at hkey hbind
      subst hkey
      exact hmember key node node' member hentry (hperm.subset hentry') hbind)
  obtain ⟨members', hmembers', hback⟩ := List.perm_comp_forall₂ hperm.symm hmid
  have hnamesPerm := perm_memberNames hentries.keys
  refine ⟨mid, members', bindMembers_eq_ok_iff.mpr ⟨?_, ?_, hmembers'⟩, hsame, hback.symm⟩
  · intro name hname
    exact hnames name (hnamesPerm.mem_iff.mpr hname)
  · exact fresh_of_perm hfresh hnamesPerm
termination_by sizeOf entries
decreasing_by exact sizeOf_lt_of_mem hmem

/-- A document in another order is bound to the same client up to order. -/
theorem exists_bindDocument_of_reordered {document document' : Value} {asked : Option String}
    {client : Client} (hdocument : document.Reordered document')
    (h : (bindDocument document asked).result = .ok client) :
    ∃ client', (bindDocument document' asked).result = .ok client' ∧
      client.SameUpToOrder client' := by
  obtain ⟨entries, members, rfl, hclient⟩ := bindDocument_eq_ok_iff.mp h
  cases hdocument with
  | same => exact ⟨client, h, rfl, rfl, ApiSet.SameUpToOrder.refl client.root⟩
  | @map _ entries' keys values =>
      obtain ⟨mid, members', hnested, hmatch, hperm⟩ :=
        exists_bindMembers_of_reordered ⟨keys, values⟩ hclient.nested
      obtain ⟨client', hclient', hsame⟩ := hclient.reordered ⟨keys, values⟩ hnested hmatch hperm
      exact ⟨client', bindDocument_eq_ok_iff.mpr ⟨entries', members', rfl, hclient'⟩, hsame⟩

/-! ## Attributes among members -/

/-- Values that differ in where the attributes of nodes stand: the members of a node keep their
order, and an attribute keeps its value. -/
inductive AttributesMoved : Value → Value → Prop
  | same (v : Value) : AttributesMoved v v
  | node {entries entries' : Entries}
      (keys : (entries.map Prod.fst).Perm (entries'.map Prod.fst))
      (members : (memberEntries entries).map Prod.fst = (memberEntries entries').map Prod.fst)
      (attributes : ∀ key v v', SchemaName.isAttributeKey key = true →
        (.str key, v) ∈ entries → (.str key, v') ∈ entries' → v = v')
      (values : ∀ key v v', (key, v) ∈ entries → (key, v') ∈ entries' → AttributesMoved v v') :
      AttributesMoved (.map entries) (.map entries')

/-- The entries of two nodes that differ in where attributes stand. -/
structure EntriesMoved (entries entries' : Entries) : Prop where
  keys : (entries.map Prod.fst).Perm (entries'.map Prod.fst)
  members : (memberEntries entries).map Prod.fst = (memberEntries entries').map Prod.fst
  attributes : ∀ key v v', SchemaName.isAttributeKey key = true →
    (.str key, v) ∈ entries → (.str key, v') ∈ entries' → v = v'
  values : ∀ key v v', (key, v) ∈ entries → (key, v') ∈ entries' → AttributesMoved v v'

/-- Moving attributes is a change of order. -/
theorem AttributesMoved.reordered {v v' : Value} (h : AttributesMoved v v') : v.Reordered v' := by
  induction h with
  | same v => exact Value.Reordered.same v
  | node keys members attributes values ih => exact Value.Reordered.map keys ih

/-- Where no key stands twice, the attributes of one node may be put anywhere. -/
theorem AttributesMoved.of_perm {entries entries' : Entries}
    (hnodup : (entries.map Prod.fst).Nodup) (hperm : entries.Perm entries')
    (hmembers : (memberEntries entries).map Prod.fst = (memberEntries entries').map Prod.fst) :
    AttributesMoved (.map entries) (.map entries') := by
  have hvalue : ∀ key v v', (key, v) ∈ entries → (key, v') ∈ entries' → v = v' := by
    intro key v v' hv hv'
    have heq := List.inj_on_of_nodup_map hnodup hv (hperm.mem_iff.mpr hv') rfl
    exact congrArg Prod.snd heq
  refine AttributesMoved.node (hperm.map Prod.fst) hmembers
    (fun key v v' _ => hvalue (.str key) v v') ?_
  intro key v v' hv hv'
  rw [hvalue key v v' hv hv']
  exact AttributesMoved.same v'

theorem EntriesMoved.field {entries entries' : Entries} (h : EntriesMoved entries entries')
    (key : String) (hkey : SchemaName.isAttributeKey key = true) :
    Value.field key entries' = Value.field key entries :=
  (Value.field_related rfl h.keys fun v v' => h.attributes key v v' hkey).symm

/-- An action does not depend on where its attributes stand. -/
theorem BindsAction.attributesMoved {enclosing : List Scope} {name : String} {path : KeyPath}
    {entries entries' : Entries} {a : Action} (h : BindsAction enclosing name path entries a)
    (hentries : EntriesMoved entries entries') : BindsAction enclosing name path entries' a := by
  refine ⟨h.name_eq, h.path_eq, checkKeys_of_perm hentries.keys h.keys, ?_, ?_, h.pathParams, ?_,
    ?_, h.origins⟩
  · rw [actionUrl, hentries.field "$url" (by decide)]
    exact h.url
  · rw [hentries.field "$method" (by decide)]
    exact h.method
  · rw [hentries.field "$params" (by decide)]
    exact h.queryParams
  · rw [hentries.field "$data" (by decide)]
    exact h.bodyParams

/-- Attributes are passed over when members are bound. -/
theorem bindMembers_of_attributesMoved {lineage : List Scope} {path : KeyPath}
    {entries entries' : Entries} {members : List Member} (hentries : EntriesMoved entries entries')
    (h : (bindMembers lineage path [] entries).result = .ok members) :
    (bindMembers lineage path [] entries').result = .ok members := by
  obtain ⟨hnames, hfresh, hforall⟩ := bindMembers_eq_ok_iff.mp h
  have hmember : ∀ key node node' member, (key, node) ∈ memberEntries entries →
      (key, node') ∈ memberEntries entries' →
      (bindMember lineage (path ++ [key]) key node).result = .ok member →
      (bindMember lineage (path ++ [key]) key node').result = .ok member := by
    intro key node node' member hentry hentry' hbind
    have hmem := (mem_memberEntries_iff.mp hentry).1
    have hnode := hentries.values _ _ _ hmem (mem_memberEntries_iff.mp hentry').1
    cases hnode with
    | same => exact hbind
    | @node inner inner' keys members attributes values =>
        have hinner : EntriesMoved inner inner' := ⟨keys, members, attributes, values⟩
        cases hkey : SchemaName.setName? key with
        | none =>
            obtain ⟨action, -, rfl, haction⟩ := (bindMember_action_iff hkey).mp hbind
            exact (bindMember_action_iff hkey).mpr ⟨action, Or.inr ⟨inner', rfl⟩, rfl,
              haction.attributesMoved hinner⟩
        | some name =>
            obtain ⟨_, below, set, heq, rfl, hset⟩ := (bindMember_set_iff hkey).mp hbind
            cases heq
            have hurl := hinner.field "$url" (by decide)
            refine (bindMember_set_iff hkey).mpr ⟨inner', below, set, rfl, rfl, hset.name_eq,
              hset.path_eq, hset.sets_eq, hset.actions_eq, ?_, checkKeys_of_perm keys hset.keys, ?_,
              bindMembers_of_attributesMoved hinner hset.nested⟩
            · rw [hurl]
              exact hset.hasUrl
            · rw [hurl]
              exact hset.url
  obtain ⟨_, hmembers', heq⟩ := exists_forall₂_of_forall₂ (S := Eq)
    (R := fun entry member =>
      (bindMember lineage (path ++ [entry.1]) entry.1 entry.2).result = .ok member)
    (forall₂_of_map_eq hentries.members) hforall (by
      rintro ⟨key, node⟩ ⟨key', node'⟩ member ⟨⟨hentry, hentry'⟩, hkey⟩ hbind
      dsimp only at hkey hbind
      subst hkey
      exact ⟨member, hmember key node node' member hentry hentry' hbind, rfl⟩)
  rw [List.forall₂_eq_eq_eq] at heq
  subst heq
  have hsame : memberNames entries = memberNames entries' := by
    rw [memberNames_eq, memberNames_eq, hentries.members]
  rw [hsame] at hnames hfresh
  exact bindMembers_eq_ok_iff.mpr ⟨hnames, hfresh, hmembers'⟩
termination_by sizeOf entries
decreasing_by exact sizeOf_lt_of_mem hmem

/-- A document with its attributes moved is bound to the same client. -/
theorem bindDocument_of_attributesMoved {document document' : Value} {asked : Option String}
    {client : Client} (hdocument : AttributesMoved document document')
    (h : (bindDocument document asked).result = .ok client) :
    (bindDocument document' asked).result = .ok client := by
  cases hdocument with
  | same => exact h
  | @node root root' keys members attributes values =>
      have hroot : EntriesMoved root root' := ⟨keys, members, attributes, values⟩
      obtain ⟨_, below, heq, hclient⟩ := bindDocument_eq_ok_iff.mp h
      cases heq
      refine bindDocument_eq_ok_iff.mpr ⟨root', below, rfl, checkKeys_of_perm keys hclient.keys, ?_,
        ?_, bindMembers_of_attributesMoved hroot hclient.nested, hclient.root_eq⟩
      · rw [hroot.field "$as" (by decide)]
        exact hclient.className
      · rw [hroot.field "$url" (by decide)]
        exact hclient.url

/-! ## Two documents -/

/-- Documents that differ in the order of keys can both be bound or neither, and the clients are the
same up to the order of sets, actions and declared parameters.  Moving attributes among the members
does not even change that order. -/
theorem bindDocument_reordered {document document' : Value} (asked : Option String)
    (hdocument : document.Reordered document') :
    ((∃ client, (bindDocument document asked).result = .ok client) ↔
      ∃ client, (bindDocument document' asked).result = .ok client) ∧
    ∀ client client', (bindDocument document asked).result = .ok client →
      (bindDocument document' asked).result = .ok client' →
      client.SameUpToOrder client' ∧ (AttributesMoved document document' → client = client') := by
  refine ⟨⟨?_, ?_⟩, ?_⟩
  · rintro ⟨client, h⟩
    obtain ⟨client', h', -⟩ := exists_bindDocument_of_reordered hdocument h
    exact ⟨client', h'⟩
  · rintro ⟨client, h⟩
    obtain ⟨client', h', -⟩ := exists_bindDocument_of_reordered hdocument.symm h
    exact ⟨client', h'⟩
  · intro client client' h h'
    refine ⟨?_, ?_⟩
    · obtain ⟨other, hother, hsame⟩ := exists_bindDocument_of_reordered hdocument h
      obtain rfl : client' = other := Except.ok.inj (h'.symm.trans hother)
      exact hsame
    · intro hmoved
      exact Except.ok.inj ((bindDocument_of_attributesMoved hmoved h).symm.trans h')

/-- Two declared parameters. -/
def pageParams : Entries :=
  [(.str "page", .str "number|default:1"), (.str "q", .null)]

/-- An API set with a set in it and an action that declares parameters. -/
def shopEntries (params : Entries) : Entries :=
  [(.str "$url", .str "$\x7b!super\x7d/<id:number>"),
   (.str "~cart", .map [(.str "$url", .str "$\x7b!super\x7d/c")]),
   (.str "find", .map [(.str "$params", .map params)])]

/-- A document with an attribute between the members. -/
def shopDocument (shop : Entries) : Entries :=
  [(.str "~shop", .map shop), (.str "$url", .str "http://h"), (.str "ping", .null)]

/-- A document turned round on three levels, and one whose first two keys are exchanged. -/
theorem bindDocument_reordered_shop : ∃ client client',
    (bindDocument (.map (shopDocument (shopEntries pageParams))) none).result = .ok client ∧
    (bindDocument (.map (shopDocument (shopEntries pageParams.reverse).reverse).reverse)
      none).result = .ok client' ∧ client.SameUpToOrder client' ∧
    (bindDocument (.map [(.str "$url", .str "http://h"), (.str "~shop", .map
      (shopEntries pageParams)), (.str "ping", .null)]) none).result = .ok client := by
  have hparams : (Value.map pageParams).Reordered (.map pageParams.reverse) :=
    Value.Reordered.of_perm_of_forall₂ (by simp [pageParams]) (List.reverse_perm _).symm
      (.cons ⟨rfl, .same _⟩ (.cons ⟨rfl, .same _⟩ .nil))
  have hfind : (Value.map [(.str "$params", .map pageParams)]).Reordered
      (.map [(.str "$params", .map pageParams.reverse)]) :=
    Value.Reordered.of_perm_of_forall₂ (by simp) (List.Perm.refl _) (.cons ⟨rfl, hparams⟩ .nil)
  have hshop : (Value.map (shopEntries pageParams)).Reordered
      (.map (shopEntries pageParams.reverse).reverse) :=
    Value.Reordered.of_perm_of_forall₂ (by simp [shopEntries]) (List.reverse_perm _).symm
      (.cons ⟨rfl, .same _⟩ (.cons ⟨rfl, .same _⟩ (.cons ⟨rfl, hfind⟩ .nil)))
  have hdocument : (Value.map (shopDocument (shopEntries pageParams))).Reordered
      (.map (shopDocument (shopEntries pageParams.reverse).reverse).reverse) :=
    Value.Reordered.of_perm_of_forall₂ (by simp [shopDocument]) (List.reverse_perm _).symm
      (.cons ⟨rfl, hshop⟩ (.cons ⟨rfl, .same _⟩ (.cons ⟨rfl, .same _⟩ .nil)))
  have hmoved : AttributesMoved (.map (shopDocument (shopEntries pageParams)))
      (.map [(.str "$url", .str "http://h"), (.str "~shop", .map (shopEntries pageParams)),
        (.str "ping", .null)]) :=
    AttributesMoved.of_perm (by simp [shopDocument]) (List.Perm.swap _ _ _) rfl
  obtain ⟨client, hclient, -⟩ := exists_eq_ok_of_any
    (x := (bindDocument (.map (shopDocument (shopEntries pageParams))) none).result)
    (p := fun _ => true) (by decide +kernel)
  obtain ⟨hbinds, hsame⟩ := bindDocument_reordered none hdocument
  obtain ⟨client', hclient'⟩ := hbinds.mp ⟨client, hclient⟩
  obtain ⟨hbinds, hequal⟩ := bindDocument_reordered none hmoved.reordered
  obtain ⟨other, hother⟩ := hbinds.mp ⟨client, hclient⟩
  obtain rfl := (hequal client other hclient hother).2 hmoved
  exact ⟨client, client', hclient, hclient', (hsame client client' hclient hclient').1, hother⟩

end Schema
end ClientForge
