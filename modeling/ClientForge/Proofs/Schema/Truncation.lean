import ClientForge.Proofs.Schema.FailurePath
/-!
# Documents cut off before a failure

Binding stops at the first place that is not in order.  If the keys that it names lead into a
member, everything before that member is in order: the document that ends there is accepted
(`bindDocument_error_path`).  No place is named at all if the report would have to show a key or a
class name with an integer of too many digits (`diagnostic?_longClassName`).

`memberPath` picks the keys up to that member, and `cutAt` ends a document there: the member and all
later members go, on every level that the keys lead through, while attributes stay.
-/

namespace ClientForge
namespace Schema

/-! ## Cutting -/

/-- The keys up to the innermost member that keys lead to or into.  What is inside an action or
under an attribute is no member. -/
def memberPath : KeyPath → KeyPath
  | [] => []
  | key :: keys =>
    if SchemaName.isAttributeKey key then []
    else
      match SchemaName.setName? key with
      | some _ => key :: memberPath keys
      | none => [key]

/-- Whether an entry stands under another key. -/
def hasOtherKey (key : String) (entry : Value × Value) : Bool :=
  match entry.1 with
  | .str k => k != key
  | _ => true

/-- The entries that declare no members. -/
def withoutMembers (entries : Entries) : Entries :=
  entries.filter fun entry => !declaresMember entry

/-- The entries before a key, something in its place, and no members behind it. -/
def endAt (key : String) (last entries : Entries) : Entries :=
  entries.takeWhile (hasOtherKey key) ++ last ++
    withoutMembers (entries.dropWhile (hasOtherKey key))

/-- The entries without the member that keys lead to, and without the members behind it on every
level that the keys lead through. -/
def cutAt : KeyPath → Entries → Entries
  | [], entries => entries
  | [key], entries => endAt key [] entries
  | key :: keys, entries =>
    match Value.lookup? key entries with
    | some (.map inner) => endAt key [(.str key, .map (cutAt keys inner))] entries
    | _ => endAt key [] entries

/-- A document without the member that keys lead to and without those behind it. -/
def cutDocument (keys : KeyPath) : Value → Value
  | .map entries => .map (cutAt keys entries)
  | v => v

theorem isAttributeKey_of_memberPath {keys rest : KeyPath} {key : String}
    (h : memberPath keys = key :: rest) : SchemaName.isAttributeKey key = false := by
  cases keys with
  | nil => cases h
  | cons first others =>
      rw [memberPath] at h
      split at h
      · cases h
      · rename_i hfirst
        have heq : first = key := by
          split at h
          · exact (List.cons.inj h).1
          · exact (List.cons.inj h).1
        rw [← heq]
        exact Bool.not_eq_true _ ▸ hfirst

/-- Whatever is cut, entries end at its first key. -/
theorem exists_cutAt_eq (key : String) (keys : KeyPath) (entries : Entries) :
    ∃ last, cutAt (key :: keys) entries = endAt key last entries ∧
      ∀ entry ∈ last, entry.1 = .str key := by
  cases keys with
  | nil => exact ⟨[], rfl, nofun⟩
  | cons next rest =>
      rw [cutAt]
      · split
        · exact ⟨_, rfl, by simp⟩
        · exact ⟨[], rfl, nofun⟩
      · nofun

/-! ## What a cut keeps -/

theorem lookup?_append (key : String) (entries more : Entries) :
    Value.lookup? key (entries ++ more) =
      (Value.lookup? key entries).or (Value.lookup? key more) := by
  induction entries with
  | nil => rfl
  | cons entry rest ih =>
      obtain ⟨k, v⟩ := entry
      cases k with
      | str s =>
          rw [List.cons_append, Value.lookup?, Value.lookup?]
          split
          · rfl
          · exact ih
      | _ => exact ih

theorem lookup?_withoutMembers {attr : String} (hattr : SchemaName.isAttributeKey attr = true)
    (entries : Entries) : Value.lookup? attr (withoutMembers entries) =
      Value.lookup? attr entries := by
  induction entries with
  | nil => rfl
  | cons entry rest ih =>
      unfold withoutMembers at ih ⊢
      rw [List.filter_cons]
      cases hentry : declaresMember entry with
      | false =>
          obtain ⟨k, v⟩ := entry
          cases k with
          | str s => simp [Value.lookup?, ih]
          | _ => simp [Value.lookup?, ih]
      | true =>
          obtain ⟨key, hkey, hmember⟩ := exists_key_of_declaresMember hentry
          obtain ⟨k, v⟩ := entry
          obtain rfl : k = Value.str key := hkey
          have hne : key ≠ attr := by
            rintro rfl
            rw [hattr] at hmember
            cases hmember
          simp [Value.lookup?, hne, ih]

theorem memberEntries_append (entries more : Entries) :
    memberEntries (entries ++ more) = memberEntries entries ++ memberEntries more := by
  induction entries with
  | nil => rfl
  | cons entry rest ih =>
      obtain ⟨k, v⟩ := entry
      cases k with
      | str s =>
          rw [List.cons_append, memberEntries, memberEntries, ih]
          split
          · rfl
          · rfl
      | _ => exact ih

theorem memberEntries_withoutMembers (entries : Entries) :
    memberEntries (withoutMembers entries) = [] := by
  induction entries with
  | nil => rfl
  | cons entry rest ih =>
      unfold withoutMembers at ih ⊢
      rw [List.filter_cons]
      cases hentry : declaresMember entry with
      | false =>
          simp only [Bool.not_false, if_true]
          rw [memberEntries_cons_of_not_member hentry, ih]
      | true => simpa using ih

section EndAt

variable {key : String} {last : Entries}

/-- Attributes stay. -/
theorem field_endAt {attr : String} (hattr : SchemaName.isAttributeKey attr = true)
    (hkey : SchemaName.isAttributeKey key = false) (hlast : ∀ entry ∈ last, entry.1 = .str key)
    (entries : Entries) : Value.field attr (endAt key last entries) = Value.field attr entries := by
  have hnone : Value.lookup? attr last = none := by
    rw [Value.lookup?_eq_none_iff]
    intro hmem
    obtain ⟨entry, hentry, heq⟩ := List.mem_map.mp hmem
    rw [hlast entry hentry] at heq
    cases heq
    rw [hattr] at hkey
    cases hkey
  unfold Value.field endAt
  rw [lookup?_append, lookup?_append, hnone, Option.or_none, lookup?_withoutMembers hattr,
    ← lookup?_append, List.takeWhile_append_dropWhile]

/-- All keys were there before. -/
theorem checkKeys_endAt {allowed : List String} {path : KeyPath} {entries : Entries}
    (h : checkKeys allowed true path entries = .ok ())
    (hkey : SchemaName.isAttributeKey key = false)
    (hlast : ∀ entry ∈ last, entry.1 = .str key) :
    checkKeys allowed true path (endAt key last entries) = .ok () := by
  rw [checkKeys_eq_ok_iff] at h ⊢
  intro entry hentry
  unfold endAt withoutMembers at hentry
  rcases List.mem_append.mp hentry with hmem | hmem
  · rcases List.mem_append.mp hmem with hmem | hmem
    · exact h entry ((List.takeWhile_prefix _).subset hmem)
    · refine ⟨key, hlast entry hmem, ?_⟩
      rw [hkey]
      rfl
  · exact h entry ((List.dropWhile_suffix _).subset (List.mem_of_mem_filter hmem))

theorem memberEntries_endAt (entries : Entries) :
    memberEntries (endAt key last entries) =
      memberEntries (entries.takeWhile (hasOtherKey key)) ++ memberEntries last := by
  unfold endAt
  rw [memberEntries_append, memberEntries_append, memberEntries_withoutMembers, List.append_nil]

end EndAt

/-- Cutting at a member leaves the attributes as they are. -/
theorem field_cutAt {attr : String} (hattr : SchemaName.isAttributeKey attr = true)
    (keys : KeyPath) (entries : Entries) :
    Value.field attr (cutAt (memberPath keys) entries) = Value.field attr entries := by
  cases hpath : memberPath keys with
  | nil => rfl
  | cons key rest =>
      obtain ⟨last, heq, hlast⟩ := exists_cutAt_eq key rest entries
      rw [heq]
      exact field_endAt hattr (isAttributeKey_of_memberPath hpath) hlast entries

/-- Cutting at a member leaves keys in order. -/
theorem checkKeys_cutAt {allowed : List String} {path : KeyPath} {entries : Entries}
    (h : checkKeys allowed true path entries = .ok ()) (keys : KeyPath) :
    checkKeys allowed true path (cutAt (memberPath keys) entries) = .ok () := by
  cases hpath : memberPath keys with
  | nil => exact h
  | cons key rest =>
      obtain ⟨last, heq, hlast⟩ := exists_cutAt_eq key rest entries
      rw [heq]
      exact checkKeys_endAt h (isAttributeKey_of_memberPath hpath) hlast

/-! ## What a cut makes acceptable -/

section Siblings

variable {lineage : List Scope} {path : KeyPath} {seen : List (String × String)}

/-- The first of siblings that can be bound can be bound. -/
theorem exists_bindMembers_of_prefix {before entries : Entries} {members : List Member}
    (h : (bindMembers lineage path seen before).result = .ok members)
    (hfirsts : memberEntries entries <+: memberEntries before) :
    ∃ firsts, (bindMembers lineage path seen entries).result = .ok firsts := by
  obtain ⟨hvalid, hfresh, hbound⟩ := bindMembers_eq_ok_iff.mp h
  obtain ⟨more, hmore⟩ := hfirsts
  have hnames : memberNames before = memberNames entries ++ more.map fun e => memberName e.1 := by
    unfold memberNames
    rw [← hmore, List.map_append]
  rw [hnames] at hvalid hfresh
  refine ⟨members.take (memberEntries entries).length, bindMembers_eq_ok_iff.mpr ⟨?_, ?_, ?_⟩⟩
  · intro name hname
    exact hvalid name (List.mem_append_left _ hname)
  · exact (fresh_append_iff.mp hfresh).1
  · have htake := List.forall₂_take (memberEntries entries).length hbound
    rwa [← hmore, List.take_left] at htake

/-- One more sibling can be bound if its name is new and it can be bound itself. -/
theorem exists_bindMembers_concat {before entries : Entries} {members : List Member} {key : String}
    {node : Value} {member : Member}
    (h : (bindMembers lineage path seen before).result = .ok members)
    (hentries : memberEntries entries = memberEntries before ++ [(key, node)])
    (hvalid : SchemaName.isMemberName (memberName key) = true)
    (hnew : memberName key ∉ seen.map Prod.fst ++ memberNames before)
    (hmember : (bindMember lineage (path ++ [key]) key node).result = .ok member) :
    (bindMembers lineage path seen entries).result = .ok (members ++ [member]) := by
  obtain ⟨hnames, hfresh, hbound⟩ := bindMembers_eq_ok_iff.mp h
  have heq : memberNames entries = memberNames before ++ [memberName key] := by
    unfold memberNames
    rw [hentries, List.map_append]
    rfl
  rw [bindMembers_eq_ok_iff, heq, hentries]
  refine ⟨?_, ?_, List.rel_append hbound (List.Forall₂.cons hmember List.Forall₂.nil)⟩
  · intro name hname
    rcases List.mem_append.mp hname with hmem | hmem
    · exact hnames name hmem
    · rw [List.mem_singleton.mp hmem]
      exact hvalid
  · rw [fresh_append_iff]
    refine ⟨hfresh, List.nodup_singleton _, ?_⟩
    intro name hname
    rw [List.mem_singleton.mp hname]
    exact hnew

end Siblings

section Split

variable {before after : Entries} {key : String} {node : Value}

/-- Up to the first occurrence of a key is at most up to this one. -/
theorem takeWhile_hasOtherKey_isPrefix (before after : Entries) (key : String) (node : Value) :
    (before ++ (.str key, node) :: after).takeWhile (hasOtherKey key) <+: before := by
  have hstop : ((.str key, node) :: after).takeWhile (hasOtherKey key) = [] := by
    simp [hasOtherKey]
  rw [List.takeWhile_append, hstop, List.append_nil]
  split
  · exact List.prefix_rfl
  · exact List.takeWhile_prefix _

/-- Where the key does not occur before, it is exactly up to this one. -/
theorem takeWhile_hasOtherKey_eq (h : .str key ∉ before.map Prod.fst) :
    (before ++ (.str key, node) :: after).takeWhile (hasOtherKey key) = before := by
  have hother : ∀ entry ∈ before, hasOtherKey key entry = true := by
    rintro ⟨k, v⟩ hentry
    cases k with
    | str s =>
        have hne : s ≠ key := by
          rintro rfl
          exact h (List.mem_map.mpr ⟨_, hentry, rfl⟩)
        simpa [hasOtherKey] using hne
    | _ => rfl
  rw [List.takeWhile_append_of_pos hother]
  simp [hasOtherKey]

theorem lookup?_split (h : .str key ∉ before.map Prod.fst) :
    Value.lookup? key (before ++ (.str key, node) :: after) = some node := by
  rw [lookup?_append, Value.lookup?_eq_none_iff.mpr h, Option.none_or, Value.lookup?, if_pos rfl]

/-- A key whose name is new does not occur before. -/
theorem key_not_mem_of_not_mem_memberNames (hkey : SchemaName.isAttributeKey key = false)
    (h : memberName key ∉ memberNames before) : .str key ∉ before.map Prod.fst := by
  intro hmem
  obtain ⟨⟨k, v⟩, hentry, heq⟩ := List.mem_map.mp hmem
  obtain rfl : k = Value.str key := heq
  have hmember : (key, v) ∈ memberEntries before := mem_memberEntries_iff.mpr ⟨hentry, hkey⟩
  exact h (List.mem_map.mpr ⟨_, hmember, rfl⟩)

end Split

theorem memberPath_cons {key : String} (hkey : SchemaName.isAttributeKey key = false)
    {name : String} (hset : SchemaName.setName? key = some name) (keys : KeyPath) :
    memberPath (key :: keys) = key :: memberPath keys := by
  rw [memberPath, hkey, hset]
  rfl

theorem memberPath_action {key : String} (hkey : SchemaName.isAttributeKey key = false)
    (hset : SchemaName.setName? key = none) (keys : KeyPath) :
    memberPath (key :: keys) = [key] := by
  rw [memberPath, hkey, hset]
  rfl

theorem memberPath_attribute {key : String} (hkey : SchemaName.isAttributeKey key = true)
    (keys : KeyPath) : memberPath (key :: keys) = [] := by
  rw [memberPath, hkey]
  rfl

/-- Keys that go on lead into the mapping under the first of them. -/
theorem cutAt_cons {key : String} {keys : KeyPath} {entries inner : Entries} (hkeys : keys ≠ [])
    (hlookup : Value.lookup? key entries = some (.map inner)) :
    cutAt (key :: keys) entries = endAt key [(.str key, .map (cutAt keys inner))] entries := by
  rw [cutAt, hlookup]
  exact hkeys

/-- An API set that fails among its members can be bound once it is cut there. -/
theorem exists_bindMember_cutAt {enclosing : List Scope} {path keys : KeyPath} {key name : String}
    {inner : Entries} {url : UrlTemplate} {members : List Member}
    (hset : SchemaName.setName? key = some name) (hasUrl : Value.field "$url" inner ≠ .null)
    (hkeys : checkKeys setKeys true path inner = .ok ())
    (hresolves : resolveUrl (setScope name path :: enclosing) (Value.field "$url" inner) = .ok url)
    (hnested : (bindMembers ((setScope name path).assign "url" (.url url) :: enclosing) path []
      (cutAt (memberPath keys) inner)).result = .ok members) :
    ∃ member, (bindMember enclosing path key (.map (cutAt (memberPath keys) inner))).result =
      .ok member := by
  have hurl : Value.field "$url" (cutAt (memberPath keys) inner) = Value.field "$url" inner :=
    field_cutAt (by decide) keys inner
  refine ⟨.set ⟨name, path, url, memberSets members, memberActions members⟩,
    (bindMember_set_iff hset).mpr
      ⟨_, members, _, rfl, rfl, rfl, rfl, rfl, rfl, ?_, ?_, ?_, hnested⟩⟩
  · rw [hurl]
    exact hasUrl
  · exact checkKeys_cutAt hkeys keys
  · rw [hurl]
    exact hresolves

/-- What is known of keys that lead to a failure among members: they lead to an entry, into one of
the members, and without that member and those behind it all can be bound. -/
structure FailsAt (lineage : List Scope) (path : KeyPath) (seen : List (String × String))
    (entries : Entries) (failure : Failure) (keys : KeyPath) : Prop where
  path_eq : failure.path = path ++ keys
  unshown : Unshown (.map entries) path failure
  leads : Leads (.map entries) keys
  member : memberPath keys ≠ []
  accepted : ∃ members,
    (bindMembers lineage path seen (cutAt (memberPath keys) entries)).result = .ok members

theorem exists_failsAt_of_bindMembers (entries : Entries) {lineage : List Scope}
    {templates : List UrlTemplate} {path : KeyPath} {seen : List (String × String)}
    {failure : Failure} (hcarries : Carries lineage templates) (hdepth : 1 ≤ lineage.length)
    (h : (bindMembers lineage path seen entries).result = .error failure) :
    ∃ keys, FailsAt lineage path seen entries failure keys := by
  obtain ⟨before, key, node, after, members, hentries, hkey, hbefore, hfails⟩ :=
    bindMembers_eq_error h
  have hmem : (.str key, node) ∈ entries := by
    rw [hentries]
    exact List.mem_append_right _ List.mem_cons_self
  -- a failure that leads no further than this member
  have hhere : ∀ keys, failure.path = path ++ key :: keys → memberPath (key :: keys) = [key] →
      Leads (.map entries) (key :: keys) → Unshown (.map entries) path failure →
      ∃ keys, FailsAt lineage path seen entries failure keys := by
    intro keys hpath hmember hleads hunshown
    refine ⟨key :: keys, hpath, hunshown, hleads, by rw [hmember]; exact List.cons_ne_nil _ _, ?_⟩
    rw [hmember]
    refine exists_bindMembers_of_prefix hbefore ?_
    show memberEntries (endAt key [] entries) <+: memberEntries before
    rw [memberEntries_endAt, hentries]
    obtain ⟨more, hmore⟩ := takeWhile_hasOtherKey_isPrefix before after key node
    refine ⟨memberEntries more, ?_⟩
    conv_rhs => rw [← hmore, memberEntries_append]
    rw [memberEntries, List.append_nil]
  rcases hfails with ⟨hpath, htold⟩ | ⟨hvalid, hnew, hmember⟩
  · refine hhere [] hpath ?_ (Leads.entry hmem) htold.unshown
    cases hset : SchemaName.setName? key with
    | none => exact memberPath_action hkey hset []
    | some name => exact memberPath_cons hkey hset []
  · cases hset : SchemaName.setName? key with
    | none =>
        have hinto := pointsInto_of_bindMember_action hcarries hdepth hset hmember
        have hunshown := hinto.unshown.inside hmem
        rcases hinto.place with hpath | ⟨keys, hpath, hleads⟩
        · exact hhere [] hpath (memberPath_action hkey hset []) (Leads.entry hmem) hunshown
        · refine hhere keys ?_ (memberPath_action hkey hset keys) (Leads.inside hmem hleads)
            hunshown
          rw [hpath, List.append_assoc]
          rfl
    | some name =>
        cases setFails_of_bindMember hset hmember with
        | here hpath hunshown =>
            exact hhere [] hpath (memberPath_cons hkey hset []) (Leads.entry hmem)
              (hunshown.inside hmem)
        | @own inner attr value hmap hattr hisAttribute hpath htold =>
            refine hhere [attr] ?_ ?_ (Leads.inside hmem (hmap ▸ Leads.entry hattr)) htold.unshown
            · rw [hpath, List.append_assoc]
              rfl
            · rw [memberPath_cons hkey hset, memberPath_attribute hisAttribute]
        | @members inner url hmap hasUrl hkeys hresolves hnested =>
            subst hmap
            obtain ⟨keys, hinner⟩ := exists_failsAt_of_bindMembers inner
              (hcarries.assign rfl url) (by simp) hnested
            refine ⟨key :: keys, ?_, hinner.unshown.inside hmem, Leads.inside hmem hinner.leads,
              ?_, ?_⟩
            · rw [hinner.path_eq, List.append_assoc]
              rfl
            · rw [memberPath_cons hkey hset]
              exact List.cons_ne_nil _ _
            · obtain ⟨inners, hinners⟩ := hinner.accepted
              obtain ⟨member, hbound⟩ :=
                exists_bindMember_cutAt hset hasUrl hkeys hresolves hinners
              have hfirst : .str key ∉ before.map Prod.fst :=
                key_not_mem_of_not_mem_memberNames hkey fun hmem =>
                  hnew (List.mem_append_right _ hmem)
              refine ⟨_, exists_bindMembers_concat hbefore ?_ hvalid hnew hbound⟩
              rw [memberPath_cons hkey hset, hentries,
                cutAt_cons hinner.member (lookup?_split hfirst), memberEntries_endAt,
                takeWhile_hasOtherKey_eq hfirst]
              simp [memberEntries, hkey]
termination_by sizeOf entries
decreasing_by
  exact sizeOf_lt_of_mem hmem

/-! ## Documents -/

/-- What the keys of a failure say about a document: they lead to an entry that is there, and if
they lead into members, the document is accepted once it is cut at the innermost of them. -/
structure PointsAt (document : Value) (asked : Option String) (keys : KeyPath) : Prop where
  leads : Leads document keys
  accepted : memberPath keys ≠ [] →
    ∃ client, (bindDocument (cutDocument (memberPath keys) document) asked).result = .ok client

/-- A document whose own entries are in order is accepted once it is cut before its first member
that is not. -/
theorem exists_bindDocument_cutAt {asked : Option String} {entries : Entries} {name : String}
    {url : Option String} {keys : KeyPath} {members : List Member}
    (hkeys : checkKeys clientKeys true [] entries = .ok ())
    (hname : readClassName (chooseClassName asked (Value.field "$as" entries)) = .ok name)
    (hurl : readRootUrl (clientScope name) (Value.field "$url" entries) = .ok url)
    (hmembers : (bindMembers [(clientScope name).assign "url" (.url ⟨[.base url]⟩)] [] []
      (cutAt (memberPath keys) entries)).result = .ok members) :
    ∃ client, (bindDocument (.map (cutAt (memberPath keys) entries)) asked).result =
      .ok client := by
  refine ⟨⟨name, url, ⟨name, [], ⟨[.base url]⟩, memberSets members, memberActions members⟩⟩,
    bindDocument_eq_ok_iff.mpr ⟨_, members, rfl, checkKeys_cutAt hkeys keys, ?_, ?_, hmembers, rfl⟩⟩
  · rw [field_cutAt (by decide) keys entries]
    exact hname
  · rw [field_cutAt (by decide) keys entries]
    exact hurl

/-- Why a failure has no report: a key at its place, or the class name, cannot be shown. -/
def CannotBeShown (document : Value) (asked : Option String) (path : KeyPath) : Prop :=
  (∃ key, KeyAt key document path ∧ key.HasLongInteger) ∨
    path = ["$as"] ∧ ∃ entries, document = .map entries ∧
      (chooseClassName asked (Value.field "$as" entries)).HasLongInteger

/-- What the root of a document says about a failure among its entries. -/
theorem Unshown.cannotBeShown {document : Value} {asked : Option String} {failure : Failure}
    (h : Unshown document [] failure) (hnone : failure.diagnostic? = none) :
    CannotBeShown document asked failure.path := by
  obtain ⟨key, keys, hpath, hkey, hlong⟩ := h hnone
  rw [hpath]
  exact Or.inl ⟨key, hkey, hlong⟩

/-- A class name that is refused is told, unless it cannot be shown. -/
theorem isTold_of_readClassName {name : Value} {cause : Cause}
    (h : readClassName name = .error cause) : cause.IsTold ∨ name.HasLongInteger := by
  unfold readClassName at h
  split at h
  · split at h
    · cases h
    · cases h
      exact isTold_or_hasLongInteger _ rfl
  · cases h
    exact isTold_or_hasLongInteger name rfl

/-- A report has the place of its failure. -/
theorem path_of_diagnostic? {failure : Failure} {report : Diagnostic}
    (h : failure.diagnostic? = some report) : report.path = failure.path.dotted := by
  obtain ⟨message, -, rfl⟩ := Option.map_eq_some_iff.mp h
  rfl

/-- The first place of a document that is not in order, as a dotted path: an entry, with everything
before its member accepted; or the class name; or the document as a whole, if it is no mapping or
has a key that is no string. -/
def FirstFault (document : Value) (asked : Option String) (cause : Cause) (path : String) : Prop :=
  (∃ keys : KeyPath, path = keys.dotted ∧ PointsAt document asked keys) ∨
  (path = "$as" ∧ ∃ entries, document = .map entries ∧
    readClassName (chooseClassName asked (Value.field "$as" entries)) = .error cause) ∨
  (path = "" ∧ ((∀ entries, document ≠ .map entries) ∨
    ∃ entries key value, document = .map entries ∧ (key, value) ∈ entries ∧
      ∀ name, key ≠ .str name))

/-- Binding stops at the first place that is not in order, and can tell it or show why not. -/
theorem firstFault_of_bindDocument {document : Value} {asked : Option String} {failure : Failure}
    (h : (bindDocument document asked).result = .error failure) :
    FirstFault document asked failure.cause failure.path.dotted ∧
      (failure.diagnostic? = none → CannotBeShown document asked failure.path) := by
  cases document with
  | map entries =>
      simp only [bindDocument, Recorded.record_bind_result, Recorded.bind_result_eq_error_iff,
        Recorded.ofChecked_result, Recorded.ofExcept_result_eq_error_iff,
        Recorded.ofExcept_result_eq_ok_iff, Recorded.pure_result, reduceCtorEq, and_false,
        exists_false, or_false] at h
      rcases h with hkeys | ⟨_, hkeys, ⟨cause, hname, rfl⟩ | ⟨name, hname, ⟨cause, hurl, rfl⟩ |
        ⟨url, hurl, hmembers⟩⟩⟩
      · refine ⟨?_, (pointsInto_of_checkKeys hkeys).unshown.cannotBeShown⟩
        rcases checkKeys_eq_error hkeys with ⟨hpath, key, value, hmem, hkey, -⟩ |
          ⟨key, value, hmem, hpath, -, hattribute⟩
        · refine Or.inr (Or.inr ⟨?_, Or.inr ⟨entries, key, value, rfl, hmem, hkey⟩⟩)
          rw [hpath]
          rfl
        · refine Or.inl ⟨[key], ?_, Leads.entry hmem, ?_⟩
          · rw [hpath]
            rfl
          · intro hmember
            exact absurd (memberPath_attribute (hattribute rfl) []) hmember
      · refine ⟨Or.inr (Or.inl ⟨rfl, entries, rfl, hname⟩), fun hnone => ?_⟩
        refine Or.inr ⟨rfl, entries, rfl, ?_⟩
        exact (isTold_of_readClassName hname).resolve_left
          fun htold => htold (Option.map_eq_none_iff.mp hnone)
      · refine ⟨Or.inl ⟨["$url"], rfl, Leads.entry (exists_mem_of_field_ne ?_), ?_⟩,
          (isTold_of_readRootUrl hurl).unshown.cannotBeShown⟩
        · intro hnull
          rw [hnull] at hurl
          cases hurl
        · intro hmember
          exact absurd (memberPath_attribute (by decide) []) hmember
      · have hcarries : Carries [(clientScope name).assign "url" (.url ⟨[.base url]⟩)]
            [⟨[.base url]⟩] := Carries.assign List.Forall₂.nil rfl _
        obtain ⟨keys, hfails⟩ := exists_failsAt_of_bindMembers entries hcarries (by simp) hmembers
        refine ⟨Or.inl ⟨keys, ?_, hfails.leads, fun _ => ?_⟩, hfails.unshown.cannotBeShown⟩
        · rw [hfails.path_eq]
          rfl
        · obtain ⟨members, haccepted⟩ := hfails.accepted
          exact exists_bindDocument_cutAt hkeys hname hurl haccepted
  | _ =>
      cases h
      refine ⟨Or.inr (Or.inr ⟨rfl, Or.inl ?_⟩), ?_⟩
      · intro entries hentries
        cases hentries
      · intro hnone
        cases hnone

/-- The report of a document that cannot be bound names the first place that is not in order.  There
is a report unless it would have to show a key, or a class name, with an integer that has too many
digits; binding has stopped at the first such place then as well. -/
theorem bindDocument_error_path {document : Value} {asked : Option String} {failure : Failure}
    (h : (bindDocument document asked).result = .error failure) :
    (∀ report, failure.diagnostic? = some report →
      FirstFault document asked failure.cause report.path) ∧
    (failure.diagnostic? = none → FirstFault document asked failure.cause failure.path.dotted ∧
      CannotBeShown document asked failure.path) := by
  obtain ⟨hfirst, hnone⟩ := firstFault_of_bindDocument h
  refine ⟨fun report hreport => ?_, fun hmute => ⟨hfirst, hnone hmute⟩⟩
  rw [path_of_diagnostic? hreport]
  exact hfirst

/-- Two levels with a parameter whose name is a number, and another fault behind it. -/
def petsEntries : Entries :=
  [(.str "hello", .null),
    (.str "~pets", .map [(.str "list", .null),
      (.str "find", .map [(.str "$params", .map [(.str "limit", .null), (.int 7, .null)])]),
      (.str "drop", .map [(.str "$method", .str "NONE")]), (.str "$url", .str "/pets")]),
    (.str "ping", .null), (.str "$url", .str "http://h")]

/-- The parameter is named, and not the later fault; a document that is in order is left of the
first member and of the set up to the faulty action. -/
theorem bindDocument_error_path_pets :
    (bindDocument (.map petsEntries) none).result =
      .error ⟨["~pets", "find", "$params", "7"], .invalidParameterName (some "7")⟩ ∧
    (∃ keys : KeyPath, "~pets.find.$params.7" = keys.dotted ∧
      PointsAt (.map petsEntries) none keys) ∧
    cutAt (memberPath ["~pets", "find", "$params", "7"]) petsEntries =
      [(.str "hello", .null),
        (.str "~pets", .map [(.str "list", .null), (.str "$url", .str "/pets")]),
        (.str "$url", .str "http://h")] := by
  have hfails : (bindDocument (.map petsEntries) none).result =
      .error ⟨["~pets", "find", "$params", "7"], .invalidParameterName (some "7")⟩ :=
    (exceptMap_eq_error_iff (f := fun _ => ())).mp (by decide +kernel)
  refine ⟨hfails, ?_, rfl⟩
  rcases (bindDocument_error_path hfails).1 _ rfl with hkeys | ⟨hpath, -⟩ | ⟨hpath, -⟩
  · exact hkeys
  · exact absurd hpath (by decide)
  · exact absurd hpath (by decide)

/-- An integer with one digit more than can be shown. -/
def longInteger : Value := .int (Int.ofNat (tenTo integerDigitLimit))

/-- A class name of too many digits is refused, and no report names its place. -/
theorem diagnostic?_longClassName :
    ∃ failure, (bindDocument (.map [(.str "$as", longInteger)]) none).result = .error failure ∧
      failure.path = ["$as"] ∧ failure.diagnostic? = none :=
  ⟨⟨["$as"], .invalidClassName none⟩,
    (exceptMap_eq_error_iff (f := fun _ => ())).mp (by decide +kernel), rfl, rfl⟩

end Schema
end ClientForge
