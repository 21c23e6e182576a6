import ClientForge.Proofs.Schema.Attribute
import ClientForge.Proofs.Schema.Reach
/-!
# Which documents can be bound

`DocumentFits` lists what a document has to satisfy, node by node and without following the walk:
a node is judged by its own entries, by its depth, and by the `$url` values of the sets around it.
`exists_bindDocument_iff` says that exactly these documents can be bound.

Only two conditions look beyond a node's own entries, and both are about the placeholders of the
expanded URL (`expandedSlots`): those of one name have one type, and none has the name of a declared
parameter.
-/

namespace ClientForge
namespace Schema

/-! ## Conditions -/

/-- The keys of the root or of an API set: all are strings, the attributes among them are allowed,
and the members have valid names, no two of them the same. -/
structure KeysFit (allowed : List String) (entries : Entries) : Prop where
  strings : ∀ entry ∈ entries, ∃ key, entry.1 = .str key
  attributes : ∀ key node, (.str key, node) ∈ entries → SchemaName.isAttributeKey key = true →
    key ∈ allowed
  names : ∀ name ∈ memberNames entries, SchemaName.isMemberName name = true
  nodup : (memberNames entries).Nodup

/-- The placeholders of a URL once its references are expanded. -/
def expandedSlots (urls : List Value) : List (String × Primitive) :=
  (Reading.ofSlots.direct urls).getD []

/-- The entries of an action at a depth, below sets with the given `$url` values. -/
structure ActionFits (depth : Nat) (urls : List Value) (entries : Entries) : Prop where
  keys : ∀ entry ∈ entries, ∃ key ∈ actionKeys, entry.1 = .str key
  url : Value.field "$url" entries = .null ∨ UrlFits depth (Value.field "$url" entries)
  method : MethodFits (Value.field "$method" entries)
  params : ParamsFit (Value.field "$params" entries)
  data : ParamsFit (Value.field "$data" entries)
  types : TypesAgree (expandedSlots (actionUrl entries :: urls))
  declared : (declaredNames (Value.field "$params" entries) ++
    declaredNames (Value.field "$data" entries)).Nodup
  distinct : ∀ slot ∈ expandedSlots (actionUrl entries :: urls),
    slot.1 ∉ declaredNames (Value.field "$params" entries) ++
      declaredNames (Value.field "$data" entries)

/-- The entries of an API set at a depth. -/
structure SetFits (depth : Nat) (entries : Entries) : Prop where
  keys : KeysFit setKeys entries
  url : UrlFits depth (Value.field "$url" entries)

/-- A member at a depth, below sets with the given `$url` values: a key with a tilde declares an
API set, any other key an action. -/
def MemberFits (depth : Nat) (urls : List Value) (key : String) (node : Value) : Prop :=
  match SchemaName.setName? key with
  | some _ => ∃ entries, node = .map entries ∧ SetFits depth entries
  | none => IsActionNode node ∧ ActionFits depth urls (actionEntries node)

/-- The entries of a document, with the class name that is asked for. -/
structure DocumentFits (asked : Option String) (root : Entries) : Prop where
  className : ∃ name, (classNames asked (Value.field "$as" root)).find? Value.isTruthy =
    some (.str name) ∧ SchemaName.isClassName name = true
  url : RootUrlFits (Value.field "$url" root)
  keys : KeysFit clientKeys root
  members : ∀ keys urls entries, Reaches root keys urls entries →
    ∀ key node, (key, node) ∈ memberEntries entries → MemberFits (keys.length + 1) urls key node

/-! ## Keys -/

/-- The keys of an action are those of its attributes. -/
theorem checkKeys_actionKeys_iff {path : KeyPath} {entries : Entries} :
    checkKeys actionKeys false path entries = .ok () ↔
      ∀ entry ∈ entries, ∃ key ∈ actionKeys, entry.1 = .str key := by
  have hattributes : ∀ key ∈ actionKeys, SchemaName.isAttributeKey key = true := by decide
  rw [checkKeys_eq_ok_iff]
  refine forall₂_congr fun entry _ => ?_
  constructor
  · rintro ⟨key, hkey, hallowed⟩
    split at hallowed
    · exact ⟨key, hallowed, hkey⟩
    · cases hallowed
  · rintro ⟨key, hmem, hkey⟩
    refine ⟨key, hkey, ?_⟩
    rw [if_pos (hattributes key hmem)]
    exact hmem

/-- Keys and names are checked at different times; together they make up `KeysFit`. -/
theorem keysFit_iff {allowed : List String} {path : KeyPath} {entries : Entries} :
    KeysFit allowed entries ↔ checkKeys allowed true path entries = .ok () ∧
      (∀ name ∈ memberNames entries, SchemaName.isMemberName name = true) ∧
      (memberNames entries).Nodup := by
  rw [checkKeys_eq_ok_iff]
  constructor
  · intro h
    refine ⟨?_, h.names, h.nodup⟩
    rintro ⟨k, node⟩ hentry
    obtain ⟨key, rfl⟩ : ∃ key, k = .str key := h.strings _ hentry
    refine ⟨key, rfl, ?_⟩
    split
    · rename_i hattribute
      exact h.attributes key node hentry hattribute
    · rfl
  · rintro ⟨hkeys, hnames, hnodup⟩
    refine ⟨?_, ?_, hnames, hnodup⟩
    · intro entry hentry
      obtain ⟨key, hkey, -⟩ := hkeys entry hentry
      exact ⟨key, hkey⟩
    · intro key node hentry hattribute
      obtain ⟨_, heq, hallowed⟩ := hkeys _ hentry
      cases heq
      rw [if_pos hattribute] at hallowed
      exact hallowed

/-! ## Actions -/

/-- The URL of an action that has none of its own can be used at any depth below the root. -/
private theorem urlFits_default {depth : Nat} (hdepth : 1 ≤ depth) :
    UrlFits depth defaultActionUrl := by
  have hparse : Expression.parse "$\x7b!super\x7d" =
      .ok ⟨[.reference 1 "url"], "$\x7b!super\x7d"⟩ := by decide +kernel
  refine ⟨_, _, rfl, hparse, ?_⟩
  simpa [SegmentFits] using hdepth

theorem urlFits_actionUrl_iff {depth : Nat} (hdepth : 1 ≤ depth) {entries : Entries} :
    UrlFits depth (actionUrl entries) ↔
      Value.field "$url" entries = .null ∨ UrlFits depth (Value.field "$url" entries) := by
  unfold actionUrl
  cases Value.field "$url" entries with
  | null => simp [orElseNull, urlFits_default hdepth]
  | _ => simp [orElseNull]

section Bound

variable {keys : KeyPath} {urls : List Value} {lineage : List Scope} {templates : List UrlTemplate}

/-- The slots of a resolved action are those of the expanded URL. -/
private theorem expandedSlots_eq {name : String} {path : KeyPath} {entries : Entries}
    {url : UrlTemplate} (hcarries : Carries lineage templates)
    (hchain : Reading.ofSlots.chain urls = some (templates.map Reading.ofSlots.template))
    (hurl : resolveUrl (actionScope name path :: lineage) (actionUrl entries) = .ok url) :
    expandedSlots (actionUrl entries :: urls) = url.slots := by
  rw [expandedSlots, Reading.direct, Reading.chain, hchain, Option.bind_some,
    url_of_resolveUrl _ rfl hcarries hurl, ← Reading.ofSlots_template]
  rfl

/-- An action can be bound exactly if it fits its depth and the URLs around it. -/
theorem exists_bindsAction_iff {name : String} {path : KeyPath} {entries : Entries}
    (hcarries : Carries lineage templates) (hlineage : 1 ≤ lineage.length)
    (hchain : Reading.ofSlots.chain urls = some (templates.map Reading.ofSlots.template)) :
    (∃ a, BindsAction lineage name path entries a) ↔ ActionFits lineage.length urls entries := by
  have hscope : (actionScope name path).attributes = [] := rfl
  have hresolve := exists_resolveUrl_iff hscope hcarries (actionUrl entries)
  rw [urlFits_actionUrl_iff hlineage] at hresolve
  constructor
  · rintro ⟨a, h⟩
    have hslots := expandedSlots_eq hcarries hchain h.url
    have hfresh := checkOrigins_eq_ok_iff.mp h.origins
    rw [List.map_append, names_of_readParams h.queryParams, names_of_readParams h.bodyParams]
      at hfresh
    refine ⟨checkKeys_actionKeys_iff.mp h.keys, hresolve.mp ⟨_, h.url⟩,
      exists_readMethod_iff.mp ⟨_, h.method⟩, exists_readParams_iff.mp ⟨_, h.queryParams⟩,
      exists_readParams_iff.mp ⟨_, h.bodyParams⟩, ?_, hfresh.1, ?_⟩
    · rw [hslots]
      exact exists_collectPathParams_iff.mp ⟨_, h.pathParams⟩
    · intro slot hslot hname
      rw [hslots] at hslot
      refine hfresh.2 slot.1 hname ?_
      exact (mem_names_collectPathParams h.pathParams slot.1).mpr (List.mem_map_of_mem hslot)
  · intro h
    obtain ⟨url, hurl⟩ := hresolve.mpr h.url
    obtain ⟨method, hmethod⟩ := exists_readMethod_iff.mpr h.method
    obtain ⟨queryParams, hquery⟩ := exists_readParams_iff.mpr h.params
    obtain ⟨bodyParams, hbody⟩ := exists_readParams_iff.mpr h.data
    have hslots := expandedSlots_eq hcarries hchain hurl
    obtain ⟨pathParams, hpath⟩ := exists_collectPathParams_iff.mpr (hslots ▸ h.types)
    refine ⟨⟨name, path, method, url, pathParams, queryParams, bodyParams⟩, rfl, rfl,
      checkKeys_actionKeys_iff.mpr h.keys, hurl, hmethod, hpath, hquery, hbody, ?_⟩
    rw [checkOrigins_eq_ok_iff, List.map_append, names_of_readParams hquery,
      names_of_readParams hbody]
    refine ⟨h.declared, ?_⟩
    intro n hdeclared htaken
    obtain ⟨slot, hslot, rfl⟩ :=
      List.mem_map.mp ((mem_names_collectPathParams hpath n).mp htaken)
    exact h.distinct slot (hslots ▸ hslot) hdeclared

/-! ## Members -/

/-- A member that was bound fits. -/
theorem memberFits_of_bindMember {path : KeyPath} {key : String} {node : Value} {member : Member}
    (hcarries : Carries lineage templates) (hlineage : 1 ≤ lineage.length)
    (hchain : Reading.ofSlots.chain urls = some (templates.map Reading.ofSlots.template))
    (h : (bindMember lineage path key node).result = .ok member) :
    MemberFits lineage.length urls key node := by
  unfold MemberFits
  cases hkey : SchemaName.setName? key with
  | some name =>
      obtain ⟨entries, members, set, rfl, -, hset⟩ := (bindMember_set_iff hkey).mp h
      obtain ⟨hnames, hfresh, -⟩ := bindMembers_eq_ok_iff.mp hset.nested
      have hscope : (setScope name path).attributes = [] := rfl
      exact ⟨entries, rfl, keysFit_iff.mpr ⟨hset.keys, hnames, hfresh.1⟩,
        (exists_resolveUrl_iff hscope hcarries _).mp ⟨_, hset.url⟩⟩
  | none =>
      obtain ⟨action, hnode, -, haction⟩ := (bindMember_action_iff hkey).mp h
      exact ⟨hnode, (exists_bindsAction_iff hcarries hlineage hchain).mp ⟨_, haction⟩⟩

end Bound

/-- Where every member fits, the members of every set can be bound.  The set is reached from the
root, and the lineage carries URLs whose slots are those of the `$url` values on the way. -/
theorem exists_bindMembers {root : Entries}
    (hfits : ∀ keys urls entries, Reaches root keys urls entries →
      ∀ key node, (key, node) ∈ memberEntries entries → MemberFits (keys.length + 1) urls key node)
    {allowed : List String} {entries : Entries} {keys : KeyPath} {urls : List Value}
    {lineage : List Scope} {templates : List UrlTemplate} (hreach : Reaches root keys urls entries)
    (hkeys : KeysFit allowed entries) (hcarries : Carries lineage templates)
    (hlineage : lineage.length = keys.length + 1)
    (hchain : Reading.ofSlots.chain urls = some (templates.map Reading.ofSlots.template)) :
    ∃ members, (bindMembers lineage keys [] entries).result = .ok members := by
  have hmembers : ∀ entry ∈ memberEntries entries, ∃ member,
      (bindMember lineage (keys ++ [entry.1]) entry.1 entry.2).result = .ok member := by
    rintro ⟨key, node⟩ hentry
    have hmember := hfits keys urls entries hreach key node hentry
    unfold MemberFits at hmember
    cases hkey : SchemaName.setName? key with
    | none =>
        simp only [hkey] at hmember
        rw [← hlineage] at hmember
        obtain ⟨action, haction⟩ :=
          (exists_bindsAction_iff hcarries (by omega) hchain).mpr hmember.2
        exact ⟨_, (bindMember_action_iff hkey).mpr ⟨action, hmember.1, rfl, haction⟩⟩
    | some name =>
        simp only [hkey] at hmember
        rw [← hlineage] at hmember
        obtain ⟨inner, rfl, hset⟩ := hmember
        have hmem := (mem_memberEntries_iff.mp hentry).1
        have hscope : (setScope name (keys ++ [key])).attributes = [] := rfl
        obtain ⟨url, hurl⟩ := (exists_resolveUrl_iff hscope hcarries _).mpr hset.url
        have hnull : Value.field "$url" inner ≠ .null := by
          obtain ⟨s, _, hs, -⟩ := hset.url
          rw [hs]
          simp
        -- the nested set is one step further from the root, below a scope that carries its URL
        obtain ⟨below, hbelow⟩ := exists_bindMembers hfits (hreach.nested hmem hkey) hset.keys
          (hcarries.assign hscope url) (by simp [hlineage]) (by
            rw [Reading.chain, hchain, Option.bind_some, url_of_resolveUrl _ hscope hcarries hurl]
            rfl)
        exact ⟨_, (bindMember_set_iff hkey).mpr ⟨inner, below,
          ⟨name, keys ++ [key], url, memberSets below, memberActions below⟩, rfl, rfl, rfl, rfl,
          rfl, rfl, hnull, (keysFit_iff.mp hset.keys).1, hurl, hbelow⟩⟩
  obtain ⟨members, hforall⟩ := exists_forall₂_of_forall_exists hmembers
  exact ⟨members, bindMembers_eq_ok_iff.mpr
    ⟨hkeys.names, fresh_nil_left.mpr hkeys.nodup, hforall⟩⟩
termination_by sizeOf entries
decreasing_by exact sizeOf_lt_of_mem hmem

/-! ## Documents -/

/-- The chosen class name is the first candidate that counts. -/
theorem exists_readClassName_iff {asked : Option String} {own : Value} :
    (∃ name, readClassName (chooseClassName asked own) = .ok name) ↔
      ∃ name, (classNames asked own).find? Value.isTruthy = some (.str name) ∧
        SchemaName.isClassName name = true := by
  simp only [readClassName_eq_ok_iff, find?_classNames, Option.some.injEq]

/-- Exactly the documents that fit can be bound. -/
theorem exists_bindDocument_iff (document : Value) (asked : Option String) :
    (∃ client, (bindDocument document asked).result = .ok client) ↔
      ∃ root, document = .map root ∧ DocumentFits asked root := by
  constructor
  · rintro ⟨client, h⟩
    obtain ⟨root, members, rfl, hclient⟩ := bindDocument_eq_ok_iff.mp h
    obtain ⟨hnames, hfresh, -⟩ := bindMembers_eq_ok_iff.mp hclient.nested
    have hscope : (clientScope client.className).attributes = [] := rfl
    refine ⟨root, rfl, exists_readClassName_iff.mp ⟨_, hclient.className⟩,
      (exists_readRootUrl_iff hscope).mp ⟨_, hclient.url⟩,
      keysFit_iff.mpr ⟨hclient.keys, hnames, hfresh.1⟩, ?_⟩
    -- the set around the member was bound, and the member on the way
    intro keys urls entries hreach key node hentry
    obtain ⟨lineage, templates, below, set, hset, -⟩ := exists_visit_of_reaches hclient hreach
    obtain ⟨-, -, hforall⟩ := bindMembers_eq_ok_iff.mp hset.nested
    obtain ⟨member, -, hmember⟩ := exists_right_of_forall₂ hforall hentry
    have hlineage : lineage.length = keys.length + 1 := by
      rw [hset.length_eq, hreach.length_eq]
    rw [← hlineage]
    exact memberFits_of_bindMember hset.carries (by omega) (hset.chain_eq _) hmember
  · rintro ⟨root, rfl, h⟩
    obtain ⟨name, hname⟩ := exists_readClassName_iff.mpr h.className
    have hscope : (clientScope name).attributes = [] := rfl
    obtain ⟨url, hurl⟩ := (exists_readRootUrl_iff hscope).mpr h.url
    -- the walk begins with the base URL as the only one carried
    have hcarries : Carries [(clientScope name).assign "url" (.url ⟨[.base url]⟩)]
        [⟨[.base url]⟩] := Carries.assign List.Forall₂.nil hscope _
    obtain ⟨members, hmembers⟩ := exists_bindMembers h.members Reaches.root h.keys hcarries rfl rfl
    exact ⟨⟨name, url, ⟨name, [], ⟨[.base url]⟩, memberSets members, memberActions members⟩⟩,
      bindDocument_eq_ok_iff.mpr ⟨root, members, rfl, (keysFit_iff.mp h.keys).1, hname, hurl,
        hmembers, rfl⟩⟩

end Schema
end ClientForge
