import ClientForge.Proofs.Schema.Attribute
import ClientForge.Proofs.Schema.Reach
/-!
# Defaults of the base URL in a bound tree

Every base marker of a bound tree carries the literal root URL, wherever references have taken it.
`mapBase` changes what the markers carry and nothing else.  Binding never looks at it: where a
lineage holds the same attributes up to their markers, the same members are bound up to their
markers (`bindMembers_mapBase`).  Names of scopes do not matter either.

So two documents that differ in the root's `$url` alone are bound alike
(`BindsClient.withBase`).
-/

namespace ClientForge

/-! ## Markers -/

section MapBase

variable (f : Option String → Option String)

/-- A part with its marker changed, if it is one. -/
def UrlPart.mapBase : UrlPart → UrlPart
  | .base default => .base (f default)
  | part => part

/-- A template with its markers changed. -/
def UrlTemplate.mapBase (t : UrlTemplate) : UrlTemplate :=
  ⟨t.parts.map (UrlPart.mapBase f)⟩

/-- An attribute with its markers changed. -/
def Attribute.mapBase : Attribute → Attribute
  | .url template => .url (template.mapBase f)
  | other => other

/-- An action with the markers of its URL changed. -/
def Action.mapBase (a : Action) : Action :=
  { a with url := a.url.mapBase f }

mutual

/-- An API set with all markers below it changed. -/
def ApiSet.mapBase : ApiSet → ApiSet
  | ⟨name, path, url, sets, actions⟩ =>
      ⟨name, path, url.mapBase f, ApiSet.mapBaseAll sets, actions.map (Action.mapBase f)⟩

/-- Several API sets with all markers below them changed. -/
def ApiSet.mapBaseAll : List ApiSet → List ApiSet
  | [] => []
  | set :: rest => ApiSet.mapBase set :: ApiSet.mapBaseAll rest

end

/-- A member with all markers below it changed. -/
def Schema.Member.mapBase : Schema.Member → Schema.Member
  | .set s => .set (s.mapBase f)
  | .action a => .action (a.mapBase f)

end MapBase

/-- A client with another literal root URL, in all its markers. -/
def Client.withBase (client : Client) (url : Option String) : Client :=
  ⟨client.className, url, client.root.mapBase fun _ => url⟩

variable {f : Option String → Option String}

theorem ApiSet.mapBaseAll_eq_map (sets : List ApiSet) :
    ApiSet.mapBaseAll f sets = sets.map (ApiSet.mapBase f) := by
  induction sets with
  | nil => rw [ApiSet.mapBaseAll, List.map_nil]
  | cons set rest ih => rw [ApiSet.mapBaseAll, List.map_cons, ih]

theorem ApiSet.mapBase_eq (set : ApiSet) :
    set.mapBase f = ⟨set.name, set.path, set.url.mapBase f, set.sets.map (ApiSet.mapBase f),
      set.actions.map (Action.mapBase f)⟩ := by
  cases set
  rw [ApiSet.mapBase, ApiSet.mapBaseAll_eq_map]

@[simp] theorem ApiSet.mapBase_name (set : ApiSet) : (set.mapBase f).name = set.name := by
  rw [ApiSet.mapBase_eq]

@[simp] theorem Action.mapBase_name (a : Action) : (a.mapBase f).name = a.name := by rfl

section Identity

/-- Markers that are kept change nothing. -/
theorem UrlTemplate.mapBase_id (t : UrlTemplate) : t.mapBase id = t := by
  have hpart : ∀ part ∈ t.parts, UrlPart.mapBase id part = id part := by
    intro part _
    cases part with
    | text s => rfl
    | slot name type => rfl
    | base default => rfl
  rw [UrlTemplate.mapBase, List.map_congr_left hpart, List.map_id]

theorem Action.mapBase_id (a : Action) : a.mapBase id = a := by
  rw [Action.mapBase, UrlTemplate.mapBase_id]

mutual

theorem ApiSet.mapBase_id : (set : ApiSet) → set.mapBase id = set
  | ⟨name, path, url, sets, actions⟩ => by
      have hactions : ∀ a ∈ actions, Action.mapBase id a = id a := fun a _ => Action.mapBase_id a
      rw [ApiSet.mapBase, ApiSet.mapBaseAll_id sets, UrlTemplate.mapBase_id,
        List.map_congr_left hactions, List.map_id]

private theorem ApiSet.mapBaseAll_id : (sets : List ApiSet) → ApiSet.mapBaseAll id sets = sets
  | [] => by rw [ApiSet.mapBaseAll]
  | set :: rest => by rw [ApiSet.mapBaseAll, ApiSet.mapBase_id set, ApiSet.mapBaseAll_id rest]

end

theorem Schema.Member.mapBase_id (member : Schema.Member) : member.mapBase id = member := by
  cases member with
  | set s => exact congrArg Schema.Member.set s.mapBase_id
  | action a => exact congrArg Schema.Member.action a.mapBase_id

end Identity

/-! ## Templates -/

namespace UrlTemplate

theorem attach_map_mapBase (part : UrlPart) (parts : List UrlPart) :
    attach (part.mapBase f) (parts.map (UrlPart.mapBase f)) =
      (attach part parts).map (UrlPart.mapBase f) := by
  cases part with
  | text s =>
      by_cases hs : s = ""
      · simp [UrlPart.mapBase, attach, hs]
      · cases parts with
        | nil => simp [UrlPart.mapBase, attach, hs]
        | cons next rest =>
            cases next with
            | text t => simp [UrlPart.mapBase, attach, hs]
            | slot name type => simp [UrlPart.mapBase, attach, hs]
            | base default => simp [UrlPart.mapBase, attach, hs]
  | slot name type => rfl
  | base default => rfl

/-- A marker is never text, so it keeps the texts around it apart as before. -/
theorem normalParts_map_mapBase (parts : List UrlPart) :
    normalParts (parts.map (UrlPart.mapBase f)) =
      (normalParts parts).map (UrlPart.mapBase f) := by
  induction parts with
  | nil => rfl
  | cons part rest ih => rw [List.map_cons, normalParts, normalParts, ih, attach_map_mapBase]

@[simp] theorem slots_mapBase (t : UrlTemplate) : (t.mapBase f).slots = t.slots := by
  rw [slots, slots, mapBase, List.filterMap_map]
  refine List.filterMap_congr fun part _ => ?_
  cases part with
  | text s => rfl
  | slot name type => rfl
  | base default => rfl

end UrlTemplate

namespace Schema

/-! ## Lineages -/

/-- The scopes of two lineages hold the same attributes up to their markers. -/
def SameAttributes (f : Option String → Option String) (lineage lineage' : List Scope) : Prop :=
  List.Forall₂ (fun scope scope' => scope'.attributes =
    scope.attributes.map fun entry => (entry.1, entry.2.mapBase f)) lineage lineage'

section Lineage

variable {lineage lineage' : List Scope}

/-- One more scope inside that holds nothing yet. -/
theorem SameAttributes.enter {scope : Scope} (h : SameAttributes f lineage lineage')
    (hscope : scope.attributes = []) : SameAttributes f (scope :: lineage) (scope :: lineage') := by
  refine List.Forall₂.cons ?_ h
  rw [hscope]
  rfl

/-- One more scope inside, once its URL is known. -/
theorem SameAttributes.assign {scope scope' : Scope} (h : SameAttributes f lineage lineage')
    (hscope : scope.attributes = []) (hscope' : scope'.attributes = []) (url : UrlTemplate) :
    SameAttributes f (scope.assign "url" (.url url) :: lineage)
      (scope'.assign "url" (.url (url.mapBase f)) :: lineage') := by
  refine List.Forall₂.cons ?_ h
  simp [Scope.assign, Scope.place, hscope, hscope', Attribute.mapBase]

theorem attribute?_of_attributes_eq {scope scope' : Scope}
    (h : scope'.attributes = scope.attributes.map fun entry => (entry.1, entry.2.mapBase f))
    (attr : String) :
    scope'.attribute? attr = (scope.attribute? attr).map (Attribute.mapBase f) := by
  rw [Scope.attribute?, Scope.attribute?, h]
  induction scope.attributes with
  | nil => rfl
  | cons entry rest ih =>
      obtain ⟨name, value⟩ := entry
      by_cases hname : attr = name
      · simp [List.lookup_cons_self, hname]
      · have hne : (attr == name) = false := beq_eq_false_iff_ne.mpr hname
        simpa [List.lookup_cons, hne] using ih

/-- A reference reads the same attribute up to its markers. -/
theorem SameAttributes.resolve (h : SameAttributes f lineage lineage') {hops : Nat} {attr : String}
    {value : Attribute} (hvalue : Scope.resolve lineage hops attr = .ok value) :
    Scope.resolve lineage' hops attr = .ok (value.mapBase f) := by
  rw [Scope.resolve_eq_ok_iff_getElem?] at hvalue ⊢
  obtain ⟨scope, hscope, hattr⟩ := hvalue
  induction h generalizing hops with
  | nil => cases hscope
  | @cons first first' _ _ hfirst _ ih =>
      cases hops with
      | zero =>
          rw [List.getElem?_cons_zero, Option.some.injEq] at hscope
          subst hscope
          refine ⟨first', rfl, ?_⟩
          rw [attribute?_of_attributes_eq hfirst, hattr]
          rfl
      | succ hops =>
          rw [List.getElem?_cons_succ] at hscope
          simp only [List.getElem?_cons_succ]
          exact ih hscope

theorem SameAttributes.expandSegments (h : SameAttributes f lineage lineage')
    {list : List Segment} {parts : List UrlPart}
    (hparts : expandSegments lineage list = .ok parts) :
    expandSegments lineage' list = .ok (parts.map (UrlPart.mapBase f)) := by
  induction list generalizing parts with
  | nil =>
      cases hparts
      rfl
  | cons segment rest ih =>
      cases segment with
      | literal s =>
          obtain ⟨others, hrest, rfl⟩ := exceptMap_eq_ok_iff.mp hparts
          rw [Schema.expandSegments, ih hrest]
          rfl
      | placeholder name spec =>
          rw [Schema.expandSegments] at hparts ⊢
          split at hparts
          · cases hparts
          · rename_i hdefault
            obtain ⟨others, hrest, rfl⟩ := exceptMap_eq_ok_iff.mp hparts
            rw [if_neg hdefault, ih hrest]
            rfl
      | reference hops attr =>
          rw [Schema.expandSegments] at hparts ⊢
          split at hparts
          · cases hparts
          · rename_i template hresolve
            obtain ⟨others, hrest, rfl⟩ := exceptMap_eq_ok_iff.mp hparts
            rw [h.resolve hresolve, ih hrest, List.map_append]
            rfl
          · rename_i s hresolve
            obtain ⟨others, hrest, rfl⟩ := exceptMap_eq_ok_iff.mp hparts
            rw [h.resolve hresolve, ih hrest]
            rfl
          · cases hparts

/-- A `$url` is resolved to the same template up to its markers. -/
theorem SameAttributes.resolveUrl (h : SameAttributes f lineage lineage') {raw : Value}
    {url : UrlTemplate} (hurl : resolveUrl lineage raw = .ok url) :
    resolveUrl lineage' raw = .ok (url.mapBase f) := by
  cases raw with
  | str s =>
      cases hparse : Expression.parse s with
      | error fault => simp [Schema.resolveUrl, hparse] at hurl
      | ok e =>
          simp only [Schema.resolveUrl, hparse] at hurl ⊢
          obtain ⟨parts, hparts, rfl⟩ := exceptMap_eq_ok_iff.mp hurl
          have hnormal : UrlTemplate.normalized ⟨parts.map (UrlPart.mapBase f)⟩ =
              (UrlTemplate.normalized ⟨parts⟩).mapBase f :=
            congrArg UrlTemplate.mk (UrlTemplate.normalParts_map_mapBase parts)
          rw [h.expandSegments hparts, ← hnormal]
          rfl
  | _ => cases hurl

/-! ## Members -/

theorem BindsAction.mapBase {name : String} {path : KeyPath} {entries : Entries} {a : Action}
    (h : BindsAction lineage name path entries a) (hsame : SameAttributes f lineage lineage') :
    BindsAction lineage' name path entries (a.mapBase f) where
  name_eq := h.name_eq
  path_eq := h.path_eq
  keys := h.keys
  url := (hsame.enter rfl).resolveUrl h.url
  method := h.method
  pathParams := by
    rw [Action.mapBase, UrlTemplate.slots_mapBase]
    exact h.pathParams
  queryParams := h.queryParams
  bodyParams := h.bodyParams
  origins := h.origins

end Lineage

theorem memberSets_map_mapBase (members : List Member) :
    memberSets (members.map (Member.mapBase f)) = (memberSets members).map (ApiSet.mapBase f) := by
  rw [memberSets, memberSets, List.filterMap_map, List.map_filterMap]
  refine List.filterMap_congr fun member _ => ?_
  cases member with
  | set s => rfl
  | action a => rfl

theorem memberActions_map_mapBase (members : List Member) :
    memberActions (members.map (Member.mapBase f)) =
      (memberActions members).map (Action.mapBase f) := by
  rw [memberActions, memberActions, List.filterMap_map, List.map_filterMap]
  refine List.filterMap_congr fun member _ => ?_
  cases member with
  | set s => rfl
  | action a => rfl

/-- A set is bound alike if the members below it are. -/
theorem BindsSet.mapBase {lineage lineage' : List Scope} {name : String} {path : KeyPath}
    {entries : Entries} {members : List Member} {set : ApiSet}
    (h : BindsSet lineage name path entries members set) (hsame : SameAttributes f lineage lineage')
    (hnested : (bindMembers ((setScope name path).assign "url" (.url (set.url.mapBase f)) ::
      lineage') path [] entries).result = .ok (members.map (Member.mapBase f))) :
    BindsSet lineage' name path entries (members.map (Member.mapBase f)) (set.mapBase f) := by
  rw [ApiSet.mapBase_eq]
  refine ⟨h.name_eq, h.path_eq, ?_, ?_, h.hasUrl, h.keys, (hsame.enter rfl).resolveUrl h.url,
    hnested⟩
  · rw [memberSets_map_mapBase, h.sets_eq]
  · rw [memberActions_map_mapBase, h.actions_eq]

/-- The same members are bound up to their markers. -/
theorem bindMembers_mapBase {lineage lineage' : List Scope} {path : KeyPath}
    {seen : List (String × String)} {entries : Entries} {members : List Member}
    (hsame : SameAttributes f lineage lineage')
    (h : (bindMembers lineage path seen entries).result = .ok members) :
    (bindMembers lineage' path seen entries).result = .ok (members.map (Member.mapBase f)) := by
  rw [bindMembers_eq_ok_iff] at h ⊢
  obtain ⟨hnames, hfresh, hforall⟩ := h
  refine ⟨hnames, hfresh, List.forall₂_map_right_iff.mpr ?_⟩
  have hmembers := (List.forall₂_and_left _ _).mpr ⟨fun _ hentry => hentry, hforall⟩
  refine hmembers.imp ?_
  rintro ⟨key, node⟩ member ⟨hentry, hbind⟩
  cases hkey : SchemaName.setName? key with
  | some name =>
      obtain ⟨inner, below, set, rfl, rfl, hset⟩ := (bindMember_set_iff hkey).mp hbind
      have hmem := (mem_memberEntries_iff.mp hentry).1
      have hscope : (setScope name (path ++ [key])).attributes = [] := rfl
      have hbelow := bindMembers_mapBase (hsame.assign hscope hscope set.url) hset.nested
      exact (bindMember_set_iff hkey).mpr
        ⟨inner, _, set.mapBase f, rfl, rfl, hset.mapBase hsame hbelow⟩
  | none =>
      obtain ⟨action, hnode, rfl, haction⟩ := (bindMember_action_iff hkey).mp hbind
      exact (bindMember_action_iff hkey).mpr ⟨action.mapBase f, hnode, rfl, haction.mapBase hsame⟩
termination_by sizeOf entries
decreasing_by exact sizeOf_lt_of_mem hmem

/-! ## Documents -/

/-- Whether an entry is a `$url`. -/
def isUrlEntry : Value × Value → Bool
  | (.str key, _) => key == "$url"
  | _ => false

/-- Entries without their `$url`. -/
def withoutUrl (entries : Entries) : Entries :=
  entries.filter fun entry => !isUrlEntry entry

theorem withoutUrl_cons_url (node : Value) (rest : Entries) :
    withoutUrl ((.str "$url", node) :: rest) = withoutUrl rest :=
  List.filter_cons_of_neg (by simp [isUrlEntry])

theorem withoutUrl_cons_of_ne {entry : Value × Value} (h : isUrlEntry entry = false)
    (rest : Entries) : withoutUrl (entry :: rest) = entry :: withoutUrl rest :=
  List.filter_cons_of_pos (by simp [h])

/-- An entry is a `$url` or is kept. -/
theorem isUrlEntry_cases (entry : Value × Value) :
    (∃ node, entry = (.str "$url", node)) ∨ isUrlEntry entry = false := by
  obtain ⟨key, node⟩ := entry
  cases key with
  | str name =>
      by_cases hname : name = "$url"
      · exact Or.inl ⟨node, by rw [hname]⟩
      · exact Or.inr (by simpa [isUrlEntry] using hname)
  | _ => exact Or.inr rfl

/-- A `$url` counts for nothing but the attribute of its name. -/
theorem field_withoutUrl {key : String} (hkey : "$url" ≠ key) (entries : Entries) :
    Value.field key (withoutUrl entries) = Value.field key entries := by
  have hlookup : Value.lookup? key (withoutUrl entries) = Value.lookup? key entries := by
    induction entries with
    | nil => rfl
    | cons entry rest ih =>
        rcases isUrlEntry_cases entry with ⟨node, rfl⟩ | hentry
        · rw [withoutUrl_cons_url, ih, Value.lookup?, if_neg hkey]
        · rw [withoutUrl_cons_of_ne hentry]
          obtain ⟨name, node⟩ := entry
          cases name with
          | str name => rw [Value.lookup?, Value.lookup?, ih]
          | _ => exact ih
  rw [Value.field, Value.field, hlookup]

theorem memberEntries_withoutUrl (entries : Entries) :
    memberEntries (withoutUrl entries) = memberEntries entries := by
  have hattribute : SchemaName.isAttributeKey "$url" = true := by decide
  induction entries with
  | nil => rfl
  | cons entry rest ih =>
      rcases isUrlEntry_cases entry with ⟨node, rfl⟩ | hentry
      · rw [withoutUrl_cons_url, ih, memberEntries, if_pos hattribute]
      · rw [withoutUrl_cons_of_ne hentry]
        obtain ⟨name, node⟩ := entry
        cases name with
        | str name => rw [memberEntries, memberEntries, ih]
        | _ => exact ih

/-- The root may have a `$url`. -/
theorem checkKeys_withoutUrl {path : KeyPath} {entries : Entries} :
    checkKeys clientKeys true path (withoutUrl entries) = .ok () ↔
      checkKeys clientKeys true path entries = .ok () := by
  have hattribute : SchemaName.isAttributeKey "$url" = true := by decide
  have hallowed : "$url" ∈ clientKeys := by decide
  rw [checkKeys_eq_ok_iff, checkKeys_eq_ok_iff]
  constructor
  · intro h entry hentry
    rcases isUrlEntry_cases entry with ⟨node, rfl⟩ | hurl
    · refine ⟨"$url", rfl, ?_⟩
      rw [if_pos hattribute]
      exact hallowed
    · exact h entry (List.mem_filter.mpr ⟨hentry, by simp [hurl]⟩)
  · intro h entry hentry
    exact h entry (List.mem_of_mem_filter hentry)

/-- Documents that differ in the root's `$url` alone are bound alike, if the other `$url` can be
read at all. -/
theorem BindsClient.withBase {asked : Option String} {root root' : Entries}
    {members : List Member} {client : Client} (h : BindsClient asked root members client)
    (hsame : withoutUrl root = withoutUrl root') {url : Option String}
    (hurl : readRootUrl (clientScope client.className) (Value.field "$url" root') = .ok url) :
    BindsClient asked root' (members.map (Member.mapBase fun _ => url)) (client.withBase url) where
  keys := by
    rw [← checkKeys_withoutUrl, ← hsame, checkKeys_withoutUrl]
    exact h.keys
  className := by
    rw [← field_withoutUrl (by decide), ← hsame, field_withoutUrl (by decide)]
    exact h.className
  url := hurl
  nested := by
    have hscope : (clientScope client.className).attributes = [] := rfl
    have hbase := bindMembers_mapBase
      (SameAttributes.assign (f := fun _ => url) List.Forall₂.nil hscope hscope _) h.nested
    rw [bindMembers_eq_ok_iff, memberNames, ← memberEntries_withoutUrl, hsame,
      memberEntries_withoutUrl, ← memberNames] at hbase
    exact bindMembers_eq_ok_iff.mpr hbase
  root_eq := by
    rw [Client.withBase, ApiSet.mapBase_eq, h.root_eq, memberSets_map_mapBase,
      memberActions_map_mapBase]
    rfl

end Schema
end ClientForge
