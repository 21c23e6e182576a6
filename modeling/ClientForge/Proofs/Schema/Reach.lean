import ClientForge.Proofs.Schema.Key
import ClientForge.Proofs.Schema.Lineage
import ClientForge.Proofs.Schema.Visits
/-!
# Nodes of a document and of its bound tree

`Reaches` names the API sets of a document by the chain of keys that leads to them, and
`ReachesAction` the actions.  Binding relates the two trees in both directions:

* every set that keys lead to has its place among the visits of the bound tree
  (`exists_visit_of_reaches`);
* every visit of the bound tree is a set that keys lead to (`exists_reaches_of_visit`).

In both cases `BoundSet` says what is known at that place: the scopes around it carry URLs that
read as the chain of `$url` values does, and its members were bound there.
-/

namespace ClientForge
namespace Schema

/-! ## Chains of keys -/

/-- The keys that lead from the root to an API set, the `$url` values of the sets on the way,
nearest first and without the root's, and the entries of that set. -/
inductive Reaches (root : Entries) : KeyPath → List Value → Entries → Prop
  | root : Reaches root [] [] root
  | nested {keys : KeyPath} {urls : List Value} {entries inner : Entries} {key name : String}
      (outer : Reaches root keys urls entries)
      (mem : (Value.str key, Value.map inner) ∈ entries)
      (isSet : SchemaName.setName? key = some name) :
      Reaches root (keys ++ [key]) (Value.field "$url" inner :: urls) inner

/-- The keys that lead from the root to the set around an action, the action's own key, the value
that its URL is read from before those of the sets on the way, and the action itself. -/
inductive ReachesAction (root : Entries) : KeyPath → String → List Value → Value → Prop
  | mk {keys : KeyPath} {urls : List Value} {entries : Entries} {key : String} {node : Value}
      (outer : Reaches root keys urls entries)
      (mem : (key, node) ∈ memberEntries entries)
      (isAction : SchemaName.setName? key = none) :
      ReachesAction root keys key (actionUrl (actionEntries node) :: urls) node

theorem Reaches.length_eq {root entries : Entries} {keys : KeyPath} {urls : List Value}
    (h : Reaches root keys urls entries) : keys.length = urls.length := by
  induction h with
  | root => rfl
  | nested _ _ _ ih => simp [ih]

/-! ## Keys and names of members -/

theorem memberName_of_setName? {key name : String} (h : SchemaName.setName? key = some name) :
    memberName key = name := by
  simp [memberName, h]

theorem memberName_of_setName?_none {key : String} (h : SchemaName.setName? key = none) :
    memberName key = key := by
  simp [memberName, h]

/-- The key of a set is its name behind a tilde. -/
theorem toList_of_setName? {key name : String} (h : SchemaName.setName? key = some name) :
    key.toList = '~' :: name.toList := by
  unfold SchemaName.setName? at h
  split at h
  · rename_i rest hkey
    cases h
    rw [hkey, String.toList_ofList]
  · cases h

theorem isAttributeKey_of_setName? {key name : String}
    (h : SchemaName.setName? key = some name) : SchemaName.isAttributeKey key = false := by
  simp [SchemaName.isAttributeKey, toList_of_setName? h]

/-- The key of a set is not empty and has no dot. -/
theorem undotted_of_isSet {key : String}
    (h : ∃ name, SchemaName.setName? key = some name ∧ SchemaName.isMemberName name = true) :
    key ≠ "" ∧ '.' ∉ key.toList := by
  obtain ⟨name, hkey, hname⟩ := h
  have hlist := toList_of_setName? hkey
  constructor
  · rintro rfl
    cases hlist
  · rw [hlist, List.mem_cons, not_or]
    exact ⟨by decide, SchemaName.dot_not_mem_of_isMemberName hname⟩

/-- The name of a bound member. -/
def Member.name : Member → String
  | .set s => s.name
  | .action a => a.name

theorem mem_memberSets_iff {members : List Member} {set : ApiSet} :
    set ∈ memberSets members ↔ Member.set set ∈ members := by
  simp only [memberSets, List.mem_filterMap]
  constructor
  · rintro ⟨member, hmem, heq⟩
    cases member with
    | set s =>
        cases heq
        exact hmem
    | action a => cases heq
  · intro hmem
    exact ⟨_, hmem, rfl⟩

theorem mem_memberActions_iff {members : List Member} {action : Action} :
    action ∈ memberActions members ↔ Member.action action ∈ members := by
  simp only [memberActions, List.mem_filterMap]
  constructor
  · rintro ⟨member, hmem, heq⟩
    cases member with
    | set s => cases heq
    | action a =>
        cases heq
        exact hmem
  · intro hmem
    exact ⟨_, hmem, rfl⟩

/-- The names of the actions stand among those of all members, in order. -/
theorem memberActions_names_sublist (members : List Member) :
    ((memberActions members).map Action.name).Sublist (members.map Member.name) := by
  induction members with
  | nil => exact List.Sublist.slnil
  | cons member rest ih =>
      cases member with
      | set s => exact ih.cons _
      | action a => exact ih.cons_cons _

/-- A member is bound under its own name. -/
theorem name_of_bindMember {enclosing : List Scope} {path : KeyPath} {key : String} {node : Value}
    {member : Member} (h : (bindMember enclosing path key node).result = .ok member) :
    member.name = memberName key := by
  cases hkey : SchemaName.setName? key with
  | some name =>
      obtain ⟨_, _, set, -, rfl, hset⟩ := (bindMember_set_iff hkey).mp h
      rw [memberName_of_setName? hkey]
      exact hset.name_eq
  | none =>
      obtain ⟨action, -, rfl, haction⟩ := (bindMember_action_iff hkey).mp h
      rw [memberName_of_setName?_none hkey]
      exact haction.name_eq

section Members

variable {lineage : List Scope} {path : KeyPath} {seen : List (String × String)}
  {entries : Entries} {members : List Member}

theorem map_name_of_bindMembers
    (h : (bindMembers lineage path seen entries).result = .ok members) :
    members.map Member.name = memberNames entries := by
  obtain ⟨-, -, hforall⟩ := bindMembers_eq_ok_iff.mp h
  exact (map_eq_map_of_forall₂ hforall fun _ _ hmember => (name_of_bindMember hmember).symm).symm

/-- No two actions of a set have one name. -/
theorem nodup_names_of_memberActions
    (h : (bindMembers lineage path seen entries).result = .ok members) :
    ((memberActions members).map Action.name).Nodup := by
  have hnames := map_name_of_bindMembers h
  obtain ⟨-, ⟨hnodup, -⟩, -⟩ := bindMembers_eq_ok_iff.mp h
  rw [← hnames] at hnodup
  exact hnodup.sublist (memberActions_names_sublist members)

/-- A set among the entries was bound as one of the members. -/
theorem exists_set_of_mem {key name : String} {inner : Entries}
    (h : (bindMembers lineage path seen entries).result = .ok members)
    (hmem : (Value.str key, Value.map inner) ∈ entries)
    (hkey : SchemaName.setName? key = some name) :
    ∃ set ∈ memberSets members, ∃ below,
      BindsSet lineage name (path ++ [key]) inner below set := by
  obtain ⟨-, -, hforall⟩ := bindMembers_eq_ok_iff.mp h
  have hentry : (key, Value.map inner) ∈ memberEntries entries :=
    mem_memberEntries_iff.mpr ⟨hmem, isAttributeKey_of_setName? hkey⟩
  obtain ⟨member, hmember, hbind⟩ := exists_right_of_forall₂ hforall hentry
  obtain ⟨_, below, set, heq, rfl, hset⟩ := (bindMember_set_iff hkey).mp hbind
  cases heq
  exact ⟨set, mem_memberSets_iff.mpr hmember, below, hset⟩

/-- A set among the members was bound from one of the entries. -/
theorem exists_mem_of_set {set : ApiSet}
    (h : (bindMembers lineage path seen entries).result = .ok members)
    (hset : set ∈ memberSets members) :
    ∃ key name inner below, (Value.str key, Value.map inner) ∈ entries ∧
      SchemaName.setName? key = some name ∧ SchemaName.isMemberName name = true ∧
      BindsSet lineage name (path ++ [key]) inner below set := by
  obtain ⟨hnames, -, hforall⟩ := bindMembers_eq_ok_iff.mp h
  obtain ⟨⟨key, node⟩, hentry, hbind⟩ :=
    exists_left_of_forall₂ hforall (mem_memberSets_iff.mp hset)
  cases hkey : SchemaName.setName? key with
  | some name =>
      obtain ⟨inner, below, _, rfl, heq, hbinds⟩ := (bindMember_set_iff hkey).mp hbind
      cases heq
      have hname := hnames _ (List.mem_map_of_mem hentry)
      rw [memberName_of_setName? hkey] at hname
      exact ⟨key, name, inner, below, (mem_memberEntries_iff.mp hentry).1, hkey, hname, hbinds⟩
  | none =>
      obtain ⟨action, -, heq, -⟩ := (bindMember_action_iff hkey).mp hbind
      cases heq

/-- An action among the entries was bound as one of the members. -/
theorem exists_action_of_mem {key : String} {node : Value}
    (h : (bindMembers lineage path seen entries).result = .ok members)
    (hmem : (key, node) ∈ memberEntries entries) (hkey : SchemaName.setName? key = none) :
    ∃ action ∈ memberActions members,
      BindsAction lineage key (path ++ [key]) (actionEntries node) action := by
  obtain ⟨-, -, hforall⟩ := bindMembers_eq_ok_iff.mp h
  obtain ⟨member, hmember, hbind⟩ := exists_right_of_forall₂ hforall hmem
  obtain ⟨action, -, rfl, haction⟩ := (bindMember_action_iff hkey).mp hbind
  exact ⟨action, mem_memberActions_iff.mpr hmember, haction⟩

/-- An action among the members was bound from one of the entries. -/
theorem exists_mem_of_action {action : Action}
    (h : (bindMembers lineage path seen entries).result = .ok members)
    (haction : action ∈ memberActions members) :
    ∃ key node, (key, node) ∈ memberEntries entries ∧ SchemaName.setName? key = none ∧
      SchemaName.isMemberName key = true ∧
      BindsAction lineage key (path ++ [key]) (actionEntries node) action := by
  obtain ⟨hnames, -, hforall⟩ := bindMembers_eq_ok_iff.mp h
  obtain ⟨⟨key, node⟩, hentry, hbind⟩ :=
    exists_left_of_forall₂ hforall (mem_memberActions_iff.mp haction)
  cases hkey : SchemaName.setName? key with
  | some name =>
      obtain ⟨_, _, set, -, heq, -⟩ := (bindMember_set_iff hkey).mp hbind
      cases heq
  | none =>
      obtain ⟨_, -, heq, hbinds⟩ := (bindMember_action_iff hkey).mp hbind
      cases heq
      have hname := hnames _ (List.mem_map_of_mem hentry)
      rw [memberName_of_setName?_none hkey] at hname
      exact ⟨key, node, hentry, hkey, hname, hbinds⟩

end Members

/-! ## Bound places -/

/-- What is known of a set at the end of a chain of keys once it is bound. -/
structure BoundSet (keys : KeyPath) (urls : List Value) (entries : Entries) (lineage : List Scope)
    (templates : List UrlTemplate) (members : List Member) (set : ApiSet) : Prop where
  path_eq : set.path = keys
  sets_eq : set.sets = memberSets members
  actions_eq : set.actions = memberActions members
  carries : Carries lineage templates
  chain_eq : ∀ {α : Type} (r : Reading α), r.chain urls = some (templates.map r.template)
  nested : (bindMembers lineage keys [] entries).result = .ok members

/-- A scope for every set on the way, and one for the root. -/
theorem BoundSet.length_eq {keys : KeyPath} {urls : List Value} {entries : Entries}
    {lineage : List Scope} {templates : List UrlTemplate} {members : List Member} {set : ApiSet}
    (h : BoundSet keys urls entries lineage templates members set) :
    lineage.length = urls.length + 1 := by
  have hlength := Reading.length_of_chain (h.chain_eq Reading.ofSlots)
  rw [List.length_map] at hlength
  rw [h.carries.length_eq, hlength]

/-- The root is bound. -/
theorem BindsClient.boundSet {asked : Option String} {entries : Entries} {members : List Member}
    {client : Client} (h : BindsClient asked entries members client) :
    BoundSet [] [] entries
      [(clientScope client.className).assign "url" (.url ⟨[.base client.url]⟩)]
      [⟨[.base client.url]⟩] members client.root := by
  refine ⟨?_, ?_, ?_, ?_, ?_, h.nested⟩
  · rw [h.root_eq]
  · rw [h.root_eq]
  · rw [h.root_eq]
  · exact Carries.assign List.Forall₂.nil rfl _
  · intro α r
    simp [Reading.chain, Reading.template, Reading.part]

/-- A set nested in a bound set is bound. -/
theorem BoundSet.nestedSet {keys : KeyPath} {urls : List Value} {entries inner : Entries}
    {lineage : List Scope} {templates : List UrlTemplate} {members below : List Member}
    {set child : ApiSet} {key name : String}
    (h : BoundSet keys urls entries lineage templates members set)
    (hchild : BindsSet lineage name (keys ++ [key]) inner below child) :
    BoundSet (keys ++ [key]) (Value.field "$url" inner :: urls) inner
      ((setScope name (keys ++ [key])).assign "url" (.url child.url) :: lineage)
      (child.url :: templates) below child where
  path_eq := hchild.path_eq
  sets_eq := hchild.sets_eq
  actions_eq := hchild.actions_eq
  carries := h.carries.assign rfl child.url
  chain_eq r := by
    rw [Reading.chain, h.chain_eq r, Option.bind_some,
      url_of_resolveUrl r rfl h.carries hchild.url]
    rfl
  nested := hchild.nested

/-- The `$url` of an action reads as the URL that it is bound with. -/
theorem BoundSet.direct_eq {keys path : KeyPath} {urls : List Value} {entries inner : Entries}
    {lineage : List Scope} {templates : List UrlTemplate} {members : List Member} {set : ApiSet}
    {name : String} {a : Action} {α : Type}
    (h : BoundSet keys urls entries lineage templates members set)
    (ha : BindsAction lineage name path inner a) (r : Reading α) :
    r.direct (actionUrl inner :: urls) = some (r.template a.url) := by
  rw [Reading.direct, Reading.chain, h.chain_eq r, Option.bind_some,
    url_of_resolveUrl r rfl h.carries ha.url]
  rfl

/-- Every set that keys lead to is visited in the bound tree, under the names of the keys. -/
theorem exists_visit_of_reaches {asked : Option String} {root entries : Entries}
    {members : List Member} {client : Client} {keys : KeyPath} {urls : List Value}
    (hclient : BindsClient asked root members client) (h : Reaches root keys urls entries) :
    ∃ lineage templates members set,
      BoundSet keys urls entries lineage templates members set ∧
        (keys.map memberName, set) ∈ client.root.visits [] := by
  induction h with
  | root => exact ⟨_, _, _, _, hclient.boundSet, ApiSet.mem_visits_self [] client.root⟩
  | @nested keys urls entries inner key name _ hmem hkey ih =>
      obtain ⟨lineage, templates, members, set, hset, hvisit⟩ := ih
      obtain ⟨child, hchild, below, hbinds⟩ := exists_set_of_mem hset.nested hmem hkey
      refine ⟨_, _, below, child, hset.nestedSet hbinds, ?_⟩
      have hbelow := ApiSet.mem_visits_of_mem_sets hvisit (hset.sets_eq ▸ hchild)
      rw [List.map_append, List.map_singleton, memberName_of_setName? hkey, ← hbinds.name_eq]
      exact hbelow

/-- Every visit of the bound tree is a set that keys lead to. -/
theorem exists_reaches_of_visit {asked : Option String} {root : Entries} {members : List Member}
    {client : Client} {names : List String} {set : ApiSet}
    (hclient : BindsClient asked root members client)
    (h : (names, set) ∈ client.root.visits []) :
    ∃ keys urls entries lineage templates members,
      Reaches root keys urls entries ∧
      BoundSet keys urls entries lineage templates members set ∧
      names = keys.map memberName ∧
      ∀ key ∈ keys, ∃ name, SchemaName.setName? key = some name ∧
        SchemaName.isMemberName name = true := by
  refine ApiSet.forall_mem_visits (P := fun names set =>
    ∃ keys urls entries lineage templates members, Reaches root keys urls entries ∧
      BoundSet keys urls entries lineage templates members set ∧ names = keys.map memberName ∧
      ∀ key ∈ keys, ∃ name, SchemaName.setName? key = some name ∧
        SchemaName.isMemberName name = true) ?_ client.root [] ?_ (names, set) h
  -- one step down the bound tree is one key further in the document
  · rintro names set ⟨keys, urls, entries, lineage, templates, members, hreach, hset, rfl, hkeys⟩
      child hchild
    rw [hset.sets_eq] at hchild
    obtain ⟨key, name, inner, below, hmem, hkey, hname, hbinds⟩ :=
      exists_mem_of_set hset.nested hchild
    refine ⟨keys ++ [key], _, inner, _, _, below, hreach.nested hmem hkey,
      hset.nestedSet hbinds, ?_, ?_⟩
    · rw [List.map_append, List.map_singleton, memberName_of_setName? hkey, hbinds.name_eq]
    · intro k hk
      rcases List.mem_append.mp hk with hk | hk
      · exact hkeys k hk
      · rw [List.mem_singleton.mp hk]
        exact ⟨name, hkey, hname⟩
  · exact ⟨[], [], root, _, _, members, Reaches.root, hclient.boundSet, rfl, by simp⟩

end Schema
end ClientForge
