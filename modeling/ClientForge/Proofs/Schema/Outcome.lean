import ClientForge.Proofs.Basics
import ClientForge.Schema.Binding
/-!
# Outcomes of binding

What the steps of binding answer, apart from the events that they leave behind.  Each function of
the walk gets one lemma that says exactly when it answers, and with what:

* `bindAction_eq_ok_iff` lists the checks of an action in a structure with named fields;
* `bindMembers_eq_ok_iff` flattens the walk over siblings, so that later proofs see one list of
  members and no accumulator;
* `bindMember_set_iff` and `bindMember_action_iff` open one member;
* `bindDocument_eq_ok_iff` opens the document.

Nothing here says why a step fails.
-/

namespace ClientForge

namespace Schema

namespace Recorded

variable {α β : Type}

@[simp] theorem pure_result (a : α) : (pure a : Recorded α).result = .ok a := by rfl

@[simp] theorem ofExcept_result_eq_ok_iff {path : KeyPath} {x : Except Cause α} {a : α} :
    (ofExcept path x).result = .ok a ↔ x = .ok a := by
  cases x with
  | error cause => simp [ofExcept]
  | ok b => simp [ofExcept]

@[simp] theorem ofChecked_result (x : Except Failure α) : (ofChecked x).result = x := by rfl

@[simp] theorem fail_result (path : KeyPath) (cause : Cause) :
    (fail path cause : Recorded α).result = .error ⟨path, cause⟩ := by rfl

/-- Two steps in a row answer exactly if both do. -/
@[simp] theorem bind_result_eq_ok_iff {x : Recorded α} {f : α → Recorded β} {b : β} :
    (x >>= f).result = .ok b ↔ ∃ a, x.result = .ok a ∧ (f a).result = .ok b := by
  change (Recorded.bind x f).result = .ok b ↔ _
  unfold Recorded.bind
  cases hx : x.result with
  | error failure => simp
  | ok a => simp

/-- An event never stands in the way of an answer. -/
@[simp] theorem record_bind_result {event : Event} {f : Unit → Recorded β} :
    (record event >>= f).result = (f ()).result := by rfl

end Recorded

/-! ## Actions -/

/-- The scope in which the attributes of an action are resolved. -/
def actionScope (name : String) (path : KeyPath) : Scope :=
  { kind := .action, name := name, path := path.dotted }

/-- The value that an action's URL is read from. -/
def actionUrl (entries : Entries) : Value :=
  orElseNull (Value.field "$url" entries) defaultActionUrl

/-- The checks that an action passes, with what they answer. -/
structure BindsAction (enclosing : List Scope) (name : String) (path : KeyPath)
    (entries : Entries) (a : Action) : Prop where
  name_eq : a.name = name
  path_eq : a.path = path
  keys : checkKeys actionKeys false path entries = .ok ()
  url : resolveUrl (actionScope name path :: enclosing) (actionUrl entries) = .ok a.url
  method : readMethod (orElseNull (Value.field "$method" entries) (.str "GET")) = .ok a.method
  pathParams : collectPathParams [] a.url.slots = .ok a.pathParams
  queryParams : readParams .query (path ++ ["$params"]) (Value.field "$params" entries) =
    .ok a.queryParams
  bodyParams : readParams .body (path ++ ["$data"]) (Value.field "$data" entries) =
    .ok a.bodyParams
  origins : checkOrigins a.pathParams (a.queryParams ++ a.bodyParams) = .ok ()

theorem bindAction_eq_ok_iff {enclosing : List Scope} {name : String} {path : KeyPath}
    {entries : Entries} {a : Action} :
    (bindAction enclosing name path entries).result = .ok a ↔
      BindsAction enclosing name path entries a := by
  simp only [bindAction, Recorded.record_bind_result, Recorded.bind_result_eq_ok_iff,
    Recorded.ofChecked_result, Recorded.ofExcept_result_eq_ok_iff, Recorded.pure_result]
  constructor
  · rintro ⟨_, hkeys, url, hurl, method, hmethod, pathParams, hpath, queryParams, hquery,
      bodyParams, hbody, _, horigins, heq⟩
    cases heq
    exact ⟨rfl, rfl, hkeys, hurl, hmethod, hpath, hquery, hbody, horigins⟩
  · intro h
    obtain ⟨name', path', method, url, pathParams, queryParams, bodyParams⟩ := a
    obtain ⟨rfl, rfl, hkeys, hurl, hmethod, hpath, hquery, hbody, horigins⟩ := h
    exact ⟨(), hkeys, url, hurl, method, hmethod, pathParams, hpath, queryParams, hquery,
      bodyParams, hbody, (), horigins, rfl⟩

/-! ## Siblings -/

/-- The members among entries, in order, with their keys. -/
def memberEntries : Entries → List (String × Value)
  | [] => []
  | (.str key, node) :: rest =>
      if SchemaName.isAttributeKey key then memberEntries rest
      else (key, node) :: memberEntries rest
  | _ :: rest => memberEntries rest

theorem mem_memberEntries_iff {entries : Entries} {key : String} {node : Value} :
    (key, node) ∈ memberEntries entries ↔
      (Value.str key, node) ∈ entries ∧ SchemaName.isAttributeKey key = false := by
  induction entries with
  | nil => simp [memberEntries]
  | cons entry rest ih =>
      obtain ⟨k, v⟩ := entry
      cases k with
      | str s =>
          by_cases hs : SchemaName.isAttributeKey s = true
          · rw [memberEntries, if_pos hs, ih]
            constructor
            · rintro ⟨hmem, hkey⟩
              exact ⟨List.mem_cons_of_mem _ hmem, hkey⟩
            · rintro ⟨hmem, hkey⟩
              rcases List.mem_cons.mp hmem with heq | hrest
              · cases heq
                rw [hs] at hkey
                contradiction
              · exact ⟨hrest, hkey⟩
          · rw [memberEntries, if_neg hs, List.mem_cons, ih]
            constructor
            · rintro (heq | ⟨hmem, hkey⟩)
              · cases heq
                exact ⟨List.mem_cons_self, Bool.not_eq_true _ ▸ hs⟩
              · exact ⟨List.mem_cons_of_mem _ hmem, hkey⟩
            · rintro ⟨hmem, hkey⟩
              rcases List.mem_cons.mp hmem with heq | hrest
              · cases heq
                exact Or.inl rfl
              · exact Or.inr ⟨hrest, hkey⟩
      | _ => simp [memberEntries, ih]

/-- The entries of a nested set are smaller than those around it. -/
theorem sizeOf_lt_of_mem {entries inner : Entries} {key : String}
    (h : (Value.str key, Value.map inner) ∈ entries) : sizeOf inner < sizeOf entries := by
  have hentry := List.sizeOf_lt_of_mem h
  simp only [Prod.mk.sizeOf_spec, Value.map.sizeOf_spec] at hentry
  omega

/-- The names of the members among entries, in order. -/
def memberNames (entries : Entries) : List String :=
  (memberEntries entries).map fun entry => memberName entry.1

theorem checkMemberName_eq_ok_iff {seen : List (String × String)} {name : String} :
    checkMemberName seen name = .ok () ↔
      SchemaName.isMemberName name = true ∧ name ∉ seen.map Prod.fst := by
  unfold checkMemberName
  by_cases hname : SchemaName.isMemberName name = true
  · rw [if_pos hname, ← lookup_eq_none_iff_not_mem]
    cases hlookup : seen.lookup name with
    | none => simp [hname]
    | some other => simp
  · simp [hname]

/-- One more member is bound first, and its name is then taken. -/
private theorem bindMembers_cons_eq_ok_iff {lineage : List Scope} {path : KeyPath}
    {seen : List (String × String)} {key : String} {node : Value} {rest : Entries}
    {members : List Member} (hkey : SchemaName.isAttributeKey key = false) :
    (bindMembers lineage path seen ((.str key, node) :: rest)).result = .ok members ↔
      (SchemaName.isMemberName (memberName key) = true ∧ memberName key ∉ seen.map Prod.fst) ∧
      ∃ member others,
        (bindMember lineage (path ++ [key]) key node).result = .ok member ∧
        (bindMembers lineage path (seen ++ [(memberName key, key)]) rest).result = .ok others ∧
        member :: others = members := by
  rw [bindMembers]
  simp only [hkey, Bool.false_eq_true, if_false, Recorded.bind_result_eq_ok_iff,
    Recorded.ofExcept_result_eq_ok_iff, Recorded.pure_result, Except.ok.injEq]
  constructor
  · rintro ⟨_, hname, member, hmember, others, hothers, heq⟩
    exact ⟨checkMemberName_eq_ok_iff.mp hname, member, others, hmember, hothers, heq⟩
  · rintro ⟨hname, member, others, hmember, hothers, heq⟩
    exact ⟨(), checkMemberName_eq_ok_iff.mpr hname, member, hmember, others, hothers, heq⟩

/-- Whether an entry declares a member. -/
def declaresMember (entry : Value × Value) : Bool :=
  match entry.1 with
  | .str key => !SchemaName.isAttributeKey key
  | _ => false

/-- Other entries are passed over. -/
theorem bindMembers_cons_of_not_member {entry : Value × Value} (h : declaresMember entry = false)
    (lineage : List Scope) (path : KeyPath) (seen : List (String × String)) (rest : Entries) :
    bindMembers lineage path seen (entry :: rest) = bindMembers lineage path seen rest := by
  obtain ⟨key, node⟩ := entry
  cases key with
  | str k =>
      rw [bindMembers]
      have hk : SchemaName.isAttributeKey k = true := by simpa [declaresMember] using h
      simp only [hk, if_true]
  | _ =>
      rw [bindMembers]
      intro k hk
      contradiction

theorem memberEntries_cons_of_not_member {entry : Value × Value}
    (h : declaresMember entry = false) (rest : Entries) :
    memberEntries (entry :: rest) = memberEntries rest := by
  obtain ⟨key, node⟩ := entry
  cases key with
  | str k =>
      have hk : SchemaName.isAttributeKey k = true := by simpa [declaresMember] using h
      rw [memberEntries, if_pos hk]
  | _ => rfl

/-- An entry that declares a member has a string as key. -/
theorem exists_key_of_declaresMember {entry : Value × Value} (h : declaresMember entry = true) :
    ∃ key, entry.1 = .str key ∧ SchemaName.isAttributeKey key = false := by
  obtain ⟨key, node⟩ := entry
  cases key with
  | str k => exact ⟨k, rfl, by simpa [declaresMember] using h⟩
  | _ => cases h

/-- Binding siblings answers exactly if their names are in order and each member is bound on its
own.  The names seen before only exclude names. -/
theorem bindMembers_eq_ok_iff {lineage : List Scope} {path : KeyPath}
    {seen : List (String × String)} {entries : Entries} {members : List Member} :
    (bindMembers lineage path seen entries).result = .ok members ↔
      (∀ name ∈ memberNames entries, SchemaName.isMemberName name = true) ∧
      Fresh (seen.map Prod.fst) (memberNames entries) ∧
      List.Forall₂ (fun entry member =>
        (bindMember lineage (path ++ [entry.1]) entry.1 entry.2).result = .ok member)
        (memberEntries entries) members := by
  induction entries generalizing seen members with
  | nil =>
      rw [bindMembers]
      constructor
      · intro h
        cases h
        exact ⟨by simp [memberNames, memberEntries], fresh_nil_right _, List.Forall₂.nil⟩
      · rintro ⟨-, -, hmembers⟩
        rw [List.forall₂_nil_left_iff.mp hmembers]
        rfl
  | cons entry rest ih =>
      obtain ⟨key, node⟩ := entry
      cases key with
      | str k =>
          cases hk : SchemaName.isAttributeKey k with
          | true =>
              rw [bindMembers]
              simp only [hk, if_true]
              rw [ih, memberNames, memberNames, memberEntries, if_pos hk]
          | false =>
              have hentries : memberEntries ((.str k, node) :: rest) =
                  (k, node) :: memberEntries rest := by
                simp [memberEntries, hk]
              have hnames : memberNames ((.str k, node) :: rest) =
                  memberName k :: memberNames rest := by
                simp [memberNames, hentries]
              rw [bindMembers_cons_eq_ok_iff hk, hentries, hnames, List.forall_mem_cons,
                fresh_cons_iff, List.forall₂_cons_left_iff]
              constructor
              · rintro ⟨⟨hname, hnew⟩, member, others, hmember, hothers, rfl⟩
                obtain ⟨hvalid, hfresh, hforall⟩ := ih.mp hothers
                rw [List.map_append] at hfresh
                exact ⟨⟨hname, hvalid⟩, ⟨hnew, hfresh⟩, member, others, hmember, hforall, rfl⟩
              · rintro ⟨⟨hname, hvalid⟩, ⟨hnew, hfresh⟩, member, others, hmember, hforall, rfl⟩
                refine ⟨⟨hname, hnew⟩, member, others, hmember, ih.mpr ⟨hvalid, ?_, hforall⟩, rfl⟩
                rw [List.map_append]
                exact hfresh
      | _ =>
          -- keys that are no strings are passed over here, `checkKeys` is what refuses them
          rw [bindMembers]
          · exact ih
          · intro k hk
            contradiction

/-! ## One member -/

/-- The scope of an API set before its URL is known. -/
def setScope (name : String) (path : KeyPath) : Scope :=
  { kind := .apiSet, name := name, path := path.dotted }

/-- The entries of an action; an action without any may be written as null. -/
def actionEntries : Value → Entries
  | .map entries => entries
  | _ => []

/-- Whether a value can be an action at all. -/
def IsActionNode (node : Value) : Prop :=
  node = .null ∨ ∃ entries, node = .map entries

/-- The checks that an API set passes, with what they answer. -/
structure BindsSet (enclosing : List Scope) (name : String) (path : KeyPath) (entries : Entries)
    (members : List Member) (set : ApiSet) : Prop where
  name_eq : set.name = name
  path_eq : set.path = path
  sets_eq : set.sets = memberSets members
  actions_eq : set.actions = memberActions members
  hasUrl : Value.field "$url" entries ≠ .null
  keys : checkKeys setKeys true path entries = .ok ()
  url : resolveUrl (setScope name path :: enclosing) (Value.field "$url" entries) = .ok set.url
  nested : (bindMembers ((setScope name path).assign "url" (.url set.url) :: enclosing) path []
    entries).result = .ok members

theorem bindMember_set_iff {enclosing : List Scope} {path : KeyPath} {key name : String}
    {node : Value} {member : Member} (hkey : SchemaName.setName? key = some name) :
    (bindMember enclosing path key node).result = .ok member ↔
      ∃ entries members set, node = .map entries ∧ member = .set set ∧
        BindsSet enclosing name path entries members set := by
  cases node with
  | map entries =>
      unfold bindMember
      simp only [hkey]
      split
      · rename_i hnull
        constructor
        · intro h
          simp at h
        · rintro ⟨_, members, set, heq, -, hset⟩
          cases heq
          exact absurd hnull hset.hasUrl
      · rename_i hurl
        simp only [Recorded.record_bind_result, Recorded.bind_result_eq_ok_iff,
          Recorded.ofChecked_result, Recorded.ofExcept_result_eq_ok_iff, Recorded.pure_result]
        constructor
        · rintro ⟨_, hkeys, url, hresolve, members, hmembers, heq⟩
          cases heq
          exact ⟨entries, members, _, rfl, rfl, rfl, rfl, rfl, rfl, hurl, hkeys, hresolve,
            hmembers⟩
        · rintro ⟨_, members, ⟨name', path', url, sets, actions⟩, heq, rfl, hset⟩
          cases heq
          obtain ⟨rfl, rfl, rfl, rfl, -, hkeys, hresolve, hmembers⟩ := hset
          exact ⟨(), hkeys, url, hresolve, members, hmembers, rfl⟩
  | _ =>
      unfold bindMember
      simp [hkey]

theorem bindMember_action_iff {enclosing : List Scope} {path : KeyPath} {key : String}
    {node : Value} {member : Member} (hkey : SchemaName.setName? key = none) :
    (bindMember enclosing path key node).result = .ok member ↔
      ∃ action, IsActionNode node ∧ member = .action action ∧
        BindsAction enclosing key path (actionEntries node) action := by
  unfold bindMember
  cases node with
  | null =>
      simp only [hkey, Recorded.bind_result_eq_ok_iff, Recorded.pure_result,
        bindAction_eq_ok_iff, Except.ok.injEq]
      constructor
      · rintro ⟨action, haction, rfl⟩
        exact ⟨action, Or.inl rfl, rfl, haction⟩
      · rintro ⟨action, -, rfl, haction⟩
        exact ⟨action, haction, rfl⟩
  | map entries =>
      simp only [hkey, Recorded.bind_result_eq_ok_iff, Recorded.pure_result,
        bindAction_eq_ok_iff, Except.ok.injEq]
      constructor
      · rintro ⟨action, haction, rfl⟩
        exact ⟨action, Or.inr ⟨entries, rfl⟩, rfl, haction⟩
      · rintro ⟨action, -, rfl, haction⟩
        exact ⟨action, haction, rfl⟩
  | _ => simp [hkey, IsActionNode]

/-! ## Keys and documents -/

/-- Keys pass exactly if all are strings, the attributes among them are known, and members occur
only where they may. -/
theorem checkKeys_eq_ok_iff {allowed : List String} {members : Bool} {path : KeyPath}
    {entries : Entries} :
    checkKeys allowed members path entries = .ok () ↔
      ∀ entry ∈ entries, ∃ key, entry.1 = .str key ∧
        if SchemaName.isAttributeKey key then key ∈ allowed else members = true := by
  induction entries with
  | nil => simp [checkKeys]
  | cons entry rest ih =>
      obtain ⟨k, node⟩ := entry
      cases k with
      | str key =>
          rw [List.forall_mem_cons, ← ih, checkKeys]
          cases hkey : SchemaName.isAttributeKey key with
          | true =>
              by_cases hallowed : key ∈ allowed
              · simp [hkey, hallowed]
              · simp [hkey, hallowed]
          | false =>
              cases members with
              | true => simp [hkey]
              | false => simp [hkey]
      | _ => simp [checkKeys]

/-- The scope of the client before its URL is known. -/
def clientScope (name : String) : Scope :=
  { kind := .client, name := name, path := "" }

/-- The checks that a document passes, with what they answer. -/
structure BindsClient (asked : Option String) (entries : Entries) (members : List Member)
    (client : Client) : Prop where
  keys : checkKeys clientKeys true [] entries = .ok ()
  className : readClassName (chooseClassName asked (Value.field "$as" entries)) =
    .ok client.className
  url : readRootUrl (clientScope client.className) (Value.field "$url" entries) = .ok client.url
  nested : (bindMembers [(clientScope client.className).assign "url" (.url ⟨[.base client.url]⟩)]
    [] [] entries).result = .ok members
  root_eq : client.root = ⟨client.className, [], ⟨[.base client.url]⟩, memberSets members,
    memberActions members⟩

theorem bindDocument_eq_ok_iff {document : Value} {asked : Option String} {client : Client} :
    (bindDocument document asked).result = .ok client ↔
      ∃ entries members, document = .map entries ∧ BindsClient asked entries members client := by
  cases document with
  | map entries =>
      simp only [bindDocument, Recorded.record_bind_result, Recorded.bind_result_eq_ok_iff,
        Recorded.ofChecked_result, Recorded.ofExcept_result_eq_ok_iff, Recorded.pure_result]
      constructor
      · rintro ⟨_, hkeys, name, hname, url, hurl, members, hmembers, heq⟩
        cases heq
        exact ⟨entries, members, rfl, hkeys, hname, hurl, hmembers, rfl⟩
      · rintro ⟨_, members, heq, hclient⟩
        cases heq
        obtain ⟨name, url, root⟩ := client
        obtain ⟨hkeys, hname, hurl, hmembers, hroot⟩ := hclient
        dsimp only at hroot
        subst hroot
        exact ⟨(), hkeys, name, hname, url, hurl, members, hmembers, rfl⟩
  | _ => simp [bindDocument]

end Schema
end ClientForge
