import ClientForge.Proofs.Document.Order
import ClientForge.Proofs.Schema.Acceptance
/-!
# Where failures point

Each step of binding names the place of its failure by keys.  The lemmas of this module say, step by
step, which keys these can be: those of the node itself, or of an entry that is there (`Leads`).  An
attribute that is absent never fails, since its default is always in order.

Siblings are bound one after the other, so a failure among them splits the entries into those that
were bound before and the one that was not (`bindMembers_eq_error`).

A report may have to show a value of the document.  That cannot be done if an integer in it has too
many digits (`shown?_eq_none_iff`); the failure then has no report and names no place.  Only keys
that are no strings, names of parameters and class names are shown, so such a failure comes from a
key with a long integer at the very place it would have named (`Unshown`), or from a class name.
-/

namespace ClientForge

/-! ## Values that cannot be shown -/

namespace Value

/-- An integer with too many digits, or a value with one inside. -/
inductive HasLongInteger : Value → Prop
  | int {n : Int} (long : tenTo integerDigitLimit ≤ n.natAbs) : HasLongInteger (.int n)
  | other {v : OtherValue} (long : v.shown? = none) : HasLongInteger (.other v)
  | item {items : List Value} {item : Value} (mem : item ∈ items) (long : HasLongInteger item) :
      HasLongInteger (.list items)
  | key {entries : List (Value × Value)} {key value : Value} (mem : (key, value) ∈ entries)
      (long : HasLongInteger key) : HasLongInteger (.map entries)
  | value {entries : List (Value × Value)} {key value : Value} (mem : (key, value) ∈ entries)
      (long : HasLongInteger value) : HasLongInteger (.map entries)

theorem integerText?_eq_none_iff {n : Int} :
    integerText? n = none ↔ tenTo integerDigitLimit ≤ n.natAbs := by
  unfold integerText?
  by_cases hlong : tenTo integerDigitLimit ≤ n.natAbs
  · rw [if_pos hlong]
    exact iff_of_true rfl hlong
  · rw [if_neg hlong]
    exact iff_of_false (Option.some_ne_none _) hlong

theorem shownItems?_eq_none_iff {items : List Value} :
    shownItems? items = none ↔ ∃ item ∈ items, item.shown? = none := by
  induction items with
  | nil => simp [shownItems?]
  | cons item rest ih =>
      rw [shownItems?, List.exists_mem_cons_iff, ← ih]
      cases item.shown? with
      | none => simp
      | some text => cases shownItems? rest <;> simp

theorem shownEntries?_eq_none_iff {entries : List (Value × Value)} :
    shownEntries? entries = none ↔
      ∃ entry ∈ entries, entry.1.shown? = none ∨ entry.2.shown? = none := by
  induction entries with
  | nil => simp [shownEntries?]
  | cons entry rest ih =>
      obtain ⟨key, value⟩ := entry
      rw [shownEntries?, List.exists_mem_cons_iff, ← ih]
      cases key.shown? with
      | none => simp
      | some name =>
          cases value.shown? with
          | none => simp
          | some text => cases shownEntries? rest <;> simp

/-- A value has no display form exactly if an integer in it is too long. -/
theorem shown?_eq_none_iff (v : Value) : v.shown? = none ↔ HasLongInteger v := by
  constructor
  · intro h
    cases v with
    | null => cases h
    | bool b => cases b <;> cases h
    | int n => exact .int (integerText?_eq_none_iff.mp h)
    | float x => cases h
    | str s => cases h
    | day d => cases h
    | moment m => cases h
    | other v => exact .other h
    | list items =>
        rw [shown?, Option.map_eq_none_iff, shownItems?_eq_none_iff] at h
        obtain ⟨item, hmem, hitem⟩ := h
        exact .item hmem ((shown?_eq_none_iff item).mp hitem)
    | map entries =>
        rw [shown?, Option.map_eq_none_iff, shownEntries?_eq_none_iff] at h
        obtain ⟨⟨key, value⟩, hmem, hkey | hvalue⟩ := h
        · exact .key hmem ((shown?_eq_none_iff key).mp hkey)
        · exact .value hmem ((shown?_eq_none_iff value).mp hvalue)
  · intro h
    induction h with
    | int long => exact integerText?_eq_none_iff.mpr long
    | other long => exact long
    | item mem _ ih =>
        rw [shown?, Option.map_eq_none_iff, shownItems?_eq_none_iff]
        exact ⟨_, mem, ih⟩
    | key mem _ ih =>
        rw [shown?, Option.map_eq_none_iff, shownEntries?_eq_none_iff]
        exact ⟨_, mem, Or.inl ih⟩
    | value mem _ ih =>
        rw [shown?, Option.map_eq_none_iff, shownEntries?_eq_none_iff]
        exact ⟨_, mem, Or.inr ih⟩
termination_by sizeOf v
decreasing_by
  · have := List.sizeOf_lt_of_mem hmem
    simp only [list.sizeOf_spec]
    omega
  · have := List.sizeOf_lt_of_mem hmem
    simp only [map.sizeOf_spec, Prod.mk.sizeOf_spec] at this ⊢
    omega
  · have := List.sizeOf_lt_of_mem hmem
    simp only [map.sizeOf_spec, Prod.mk.sizeOf_spec] at this ⊢
    omega

/-- A value has a text if it has a display form. -/
theorem text?_eq_none_iff (v : Value) : v.text? = none ↔ HasLongInteger v := by
  rw [← shown?_eq_none_iff]
  cases v with
  | str s => simp [text?, shown?]
  | day d => simp [text?, shown?]
  | moment m => simp [text?, shown?]
  | _ => exact Iff.rfl

end Value

namespace Schema

/-- Keys that lead through nested mappings to an entry that is there.  Keys are strings; only the
name of a parameter may be any value, which is then taken as text. -/
inductive Leads : Value → KeyPath → Prop
  | entry {entries : Entries} {key : String} {value : Value}
      (mem : (.str key, value) ∈ entries) : Leads (.map entries) [key]
  | inside {entries : Entries} {key : String} {value : Value} {keys : KeyPath}
      (mem : (.str key, value) ∈ entries) (rest : Leads value keys) :
      Leads (.map entries) (key :: keys)
  | parameter {entries params : Entries} {key text : String} {name value : Value}
      (declares : key = "$params" ∨ key = "$data") (mem : (.str key, .map params) ∈ entries)
      (param : (name, value) ∈ params) (taken : name.text? = some text) :
      Leads (.map entries) [key, text]

/-- Keys that lead to a mapping with a given key. -/
inductive KeyAt (key : Value) : Value → KeyPath → Prop
  | here {entries : Entries} {value : Value} (mem : (key, value) ∈ entries) :
      KeyAt key (.map entries) []
  | inside {entries : Entries} {name : String} {value : Value} {keys : KeyPath}
      (mem : (.str name, value) ∈ entries) (rest : KeyAt key value keys) :
      KeyAt key (.map entries) (name :: keys)

/-- A failure without a report comes from a key that cannot be shown, at its own place. -/
def Unshown (node : Value) (path : KeyPath) (failure : Failure) : Prop :=
  failure.diagnostic? = none →
    ∃ key keys, failure.path = path ++ keys ∧ KeyAt key node keys ∧ key.HasLongInteger

/-- A cause that can be put into words. -/
def Cause.IsTold (cause : Cause) : Prop :=
  cause.message? ≠ none

/-- A failure at the node itself or at an entry inside. -/
structure PointsInto (node : Value) (path : KeyPath) (failure : Failure) : Prop where
  place : failure.path = path ∨ ∃ keys, failure.path = path ++ keys ∧ Leads node keys
  unshown : Unshown node path failure

theorem Cause.IsTold.unshown {failure : Failure} {node : Value} {path : KeyPath}
    (h : failure.cause.IsTold) : Unshown node path failure :=
  fun hnone => absurd (Option.map_eq_none_iff.mp hnone) h

/-- What is unshown in a member is unshown in what declares it. -/
theorem Unshown.inside {node : Value} {path : KeyPath} {key : String} {failure : Failure}
    (h : Unshown node (path ++ [key]) failure) {entries : Entries}
    (hmem : (.str key, node) ∈ entries) : Unshown (.map entries) path failure := by
  intro hnone
  obtain ⟨name, keys, hpath, hkey, hlong⟩ := h hnone
  exact ⟨name, key :: keys, by rw [hpath, List.append_assoc]; rfl, .inside hmem hkey, hlong⟩

/-- A value that is not null stands under its key. -/
theorem exists_mem_of_field_ne {key : String} {entries : Entries}
    (h : Value.field key entries ≠ .null) : (.str key, Value.field key entries) ∈ entries := by
  unfold Value.field at h ⊢
  cases hlookup : Value.lookup? key entries with
  | none =>
      rw [hlookup] at h
      exact absurd rfl h
  | some value => exact Value.mem_of_lookup? hlookup

namespace Recorded

variable {α β : Type}

/-- Two steps in a row fail where the first of them fails. -/
theorem bind_result_eq_error_iff {x : Recorded α} {f : α → Recorded β} {failure : Failure} :
    (x >>= f).result = .error failure ↔
      x.result = .error failure ∨ ∃ a, x.result = .ok a ∧ (f a).result = .error failure := by
  change (Recorded.bind x f).result = .error failure ↔ _
  unfold Recorded.bind
  cases hx : x.result with
  | error failure' => simp
  | ok a => simp

theorem ofExcept_result_eq_error_iff {path : KeyPath} {x : Except Cause α} {failure : Failure} :
    (ofExcept path x).result = .error failure ↔
      ∃ cause, x = .error cause ∧ failure = ⟨path, cause⟩ := by
  cases x with
  | error cause => simp [ofExcept, eq_comm]
  | ok a => simp [ofExcept]

end Recorded

/-! ## Causes that can be told -/

theorem isTold_of_expandSegments {lineage : List Scope} {segments : List Segment} {cause : Cause}
    (h : expandSegments lineage segments = .error cause) : cause.IsTold := by
  fun_induction expandSegments lineage segments with
  | case1 => cases h
  | case2 _ _ ih => exact ih (exceptMap_eq_error_iff.mp h)
  | case3 => cases h; exact Option.some_ne_none _
  | case4 _ _ _ _ _ ih => exact ih (exceptMap_eq_error_iff.mp h)
  | case5 _ _ _ _ _ ih => exact ih (exceptMap_eq_error_iff.mp h)
  | case6 => cases h; exact Option.some_ne_none _
  | case7 => cases h; exact Option.some_ne_none _
  | case8 _ _ _ _ ih => exact ih (exceptMap_eq_error_iff.mp h)

theorem isTold_of_resolveUrl {lineage : List Scope} {raw : Value} {cause : Cause}
    (h : resolveUrl lineage raw = .error cause) : cause.IsTold := by
  unfold resolveUrl at h
  split at h
  · split at h
    · cases h
      exact Option.some_ne_none _
    · exact isTold_of_expandSegments (exceptMap_eq_error_iff.mp h)
  · cases h
    exact Option.some_ne_none _

theorem isTold_of_checkRootSegments {scope : Scope} {segments : List Segment} {cause : Cause}
    (h : checkRootSegments scope segments = .error cause) : cause.IsTold := by
  fun_induction checkRootSegments scope segments with
  | case1 => cases h
  | case2 _ _ ih => exact ih h
  | case3 => cases h; exact Option.some_ne_none _
  | case4 => cases h; exact Option.some_ne_none _
  | case5 _ _ _ _ _ ih => exact ih h

theorem isTold_of_readRootUrl {scope : Scope} {raw : Value} {cause : Cause}
    (h : readRootUrl scope raw = .error cause) : cause.IsTold := by
  unfold readRootUrl at h
  split at h
  · cases h
  · split at h
    · cases h
      exact Option.some_ne_none _
    · exact isTold_of_checkRootSegments (exceptMap_eq_error_iff.mp h)
  · cases h
    exact Option.some_ne_none _

theorem isTold_of_readMethod {raw : Value} {cause : Cause} (h : readMethod raw = .error cause) :
    cause.IsTold := by
  unfold readMethod at h
  split at h
  · split at h
    · cases h
    · cases h
      exact Option.some_ne_none _
  · cases h
    exact Option.some_ne_none _

theorem isTold_of_collectPathParams {found : List Parameter} {slots : List (String × Primitive)}
    {cause : Cause} (h : collectPathParams found slots = .error cause) : cause.IsTold := by
  fun_induction collectPathParams found slots with
  | case1 => cases h
  | case2 _ _ _ _ _ ih => exact ih h
  | case3 _ _ _ _ _ ih => exact ih h
  | case4 => cases h; exact Option.some_ne_none _

theorem isTold_of_checkOrigins {taken list : List Parameter} {cause : Cause}
    (h : checkOrigins taken list = .error cause) : cause.IsTold := by
  fun_induction checkOrigins taken list with
  | case1 => cases h
  | case2 => cases h; exact Option.some_ne_none _
  | case3 _ _ _ _ ih => exact ih h

theorem isTold_of_readParameterType {value : Value} {cause : Cause}
    (h : readParameterType value = .error cause) : cause.IsTold := by
  unfold readParameterType at h
  split at h
  · cases h
  · split at h
    · cases h
      exact Option.some_ne_none _
    · cases h
  · cases h
    exact Option.some_ne_none _

theorem isTold_of_checkMemberName {seen : List (String × String)} {name : String} {cause : Cause}
    (h : checkMemberName seen name = .error cause) : cause.IsTold := by
  unfold checkMemberName at h
  split at h
  · split at h
    · cases h
      exact Option.some_ne_none _
    · cases h
  · cases h
    exact Option.some_ne_none _

/-- A cause that only shows one value is told unless that value has a long integer. -/
theorem isTold_or_hasLongInteger {cause : Cause} (v : Value) {wording : String → String}
    (h : cause.message? = v.shown?.map wording) : cause.IsTold ∨ v.HasLongInteger := by
  unfold Cause.IsTold
  rw [h, ← Value.shown?_eq_none_iff, Ne, Option.map_eq_none_iff]
  exact (Decidable.em _).symm

/-- Whatever is wrong with a parameter is told, unless its name cannot be shown. -/
theorem isTold_of_readParameter {origin : Origin} {key value : Value} {cause : Cause}
    (h : readParameter origin key value = .error cause) : cause.IsTold ∨ key.HasLongInteger := by
  unfold readParameter at h
  split at h
  · split at h
    · exact Or.inl (isTold_of_readParameterType (exceptMap_eq_error_iff.mp h))
    · cases h
      exact isTold_or_hasLongInteger _ rfl
  · cases h
    exact isTold_or_hasLongInteger key rfl

/-! ## Keys and parameters -/

/-- A key that is no string belongs nowhere. -/
theorem checkKeys_cons_of_not_str {allowed : List String} {members : Bool} {path : KeyPath}
    {key value : Value} {rest : Entries} (hkey : ∀ name, key ≠ .str name) :
    checkKeys allowed members path ((key, value) :: rest) =
      .error ⟨path, .keyNotString key.shown?⟩ := by
  cases key with
  | str name => exact absurd rfl (hkey name)
  | _ => rfl

/-- A key that does not belong is named, unless it is no string.  Where members may stand, only
attributes do not belong. -/
theorem checkKeys_eq_error {allowed : List String} {members : Bool} {path : KeyPath}
    {entries : Entries} {failure : Failure}
    (h : checkKeys allowed members path entries = .error failure) :
    (failure.path = path ∧ ∃ key value, (key, value) ∈ entries ∧ (∀ name, key ≠ .str name) ∧
      (failure.cause.IsTold ∨ key.HasLongInteger)) ∨
      ∃ key value, (.str key, value) ∈ entries ∧ failure.path = path ++ [key] ∧
        failure.cause.IsTold ∧ (members = true → SchemaName.isAttributeKey key = true) := by
  induction entries with
  | nil => cases h
  | cons entry rest ih =>
      obtain ⟨k, node⟩ := entry
      have hlater : checkKeys allowed members path rest = .error failure →
          (failure.path = path ∧ ∃ key value, (key, value) ∈ (k, node) :: rest ∧
            (∀ name, key ≠ .str name) ∧ (failure.cause.IsTold ∨ key.HasLongInteger)) ∨
          ∃ key value, (.str key, value) ∈ (k, node) :: rest ∧ failure.path = path ++ [key] ∧
            failure.cause.IsTold ∧ (members = true → SchemaName.isAttributeKey key = true) := by
        intro hrest
        rcases ih hrest with ⟨hpath, key, value, hmem, hkey⟩ | ⟨key, value, hmem, hpath, hkey⟩
        · exact Or.inl ⟨hpath, key, value, List.mem_cons_of_mem _ hmem, hkey⟩
        · exact Or.inr ⟨key, value, List.mem_cons_of_mem _ hmem, hpath, hkey⟩
      by_cases hstr : ∃ name, k = .str name
      · obtain ⟨key, rfl⟩ := hstr
        rw [checkKeys] at h
        split at h
        · rename_i hattribute
          split at h
          · exact hlater h
          · cases h
            exact Or.inr ⟨key, node, List.mem_cons_self, rfl, Option.some_ne_none _,
              fun _ => hattribute⟩
        · split at h
          · exact hlater h
          · rename_i hmembers
            cases h
            exact Or.inr ⟨key, node, List.mem_cons_self, rfl, Option.some_ne_none _,
              fun h => absurd h hmembers⟩
      · have hkey : ∀ name, k ≠ .str name := fun name hname => hstr ⟨name, hname⟩
        rw [checkKeys_cons_of_not_str hkey] at h
        cases h
        exact Or.inl ⟨rfl, k, node, List.mem_cons_self, hkey, isTold_or_hasLongInteger k rfl⟩

/-- A failure at a node because of one of its keys. -/
theorem unshown_of_key {failure : Failure} {path : KeyPath} {key value : Value} {entries : Entries}
    (hpath : failure.path = path) (hmem : (key, value) ∈ entries)
    (h : failure.cause.IsTold ∨ key.HasLongInteger) : Unshown (.map entries) path failure := by
  rcases h with htold | hlong
  · exact htold.unshown
  · exact fun _ => ⟨key, [], by rw [hpath, List.append_nil], .here hmem, hlong⟩

/-- A key that does not belong points into the mapping that has it. -/
theorem pointsInto_of_checkKeys {allowed : List String} {members : Bool} {path : KeyPath}
    {entries : Entries} {failure : Failure}
    (h : checkKeys allowed members path entries = .error failure) :
    PointsInto (.map entries) path failure := by
  rcases checkKeys_eq_error h with
    ⟨hpath, key, value, hmem, -, htold⟩ | ⟨key, value, hmem, hpath, htold, -⟩
  · exact ⟨Or.inl hpath, unshown_of_key hpath hmem htold⟩
  · exact ⟨Or.inr ⟨[key], hpath, Leads.entry hmem⟩, htold.unshown⟩

/-- A parameter that cannot be read is named, if it has a name. -/
theorem readParameters_eq_error {origin : Origin} {path : KeyPath} {entries : Entries}
    {failure : Failure} (h : readParameters origin path entries = .error failure) :
    ∃ key value, (key, value) ∈ entries ∧ failure.path = path ++ key.text?.toList ∧
      (failure.cause.IsTold ∨ key.HasLongInteger) := by
  induction entries with
  | nil => cases h
  | cons entry rest ih =>
      obtain ⟨key, value⟩ := entry
      rw [readParameters] at h
      split at h
      · rename_i hcause
        cases h
        exact ⟨key, value, List.mem_cons_self, rfl, isTold_of_readParameter hcause⟩
      · obtain ⟨key', value', hmem, hpath⟩ := ih (exceptMap_eq_error_iff.mp h)
        exact ⟨key', value', List.mem_cons_of_mem _ hmem, hpath⟩

/-- Declared parameters fail at their attribute or at one of them. -/
theorem pointsInto_of_readParams {origin : Origin} {path : KeyPath} {entries : Entries}
    {failure : Failure} {attr : String} (hattr : attr = "$params" ∨ attr = "$data")
    (h : readParams origin (path ++ [attr]) (Value.field attr entries) = .error failure) :
    PointsInto (.map entries) path failure := by
  have hpresent : Value.field attr entries ≠ .null := by
    intro hnull
    rw [hnull] at h
    cases h
  have hmem := exists_mem_of_field_ne hpresent
  generalize Value.field attr entries = value at h hmem
  cases value with
  | map params =>
      obtain ⟨key, value, hparam, hpath, htold⟩ := readParameters_eq_error h
      cases htext : key.text? with
      | some text =>
          rw [htext, List.append_assoc] at hpath
          refine ⟨Or.inr ⟨[attr, text], hpath, Leads.parameter hattr hmem hparam htext⟩, ?_⟩
          refine (htold.resolve_right fun hlong => ?_).unshown
          rw [(Value.text?_eq_none_iff key).mpr hlong] at htext
          cases htext
      | none =>
          rw [htext] at hpath
          have hattrPath : failure.path = path ++ [attr] := by
            rw [hpath]
            exact List.append_nil _
          exact ⟨Or.inr ⟨[attr], hattrPath, Leads.entry hmem⟩,
            (unshown_of_key hattrPath hparam htold).inside hmem⟩
  | null => cases h
  | _ =>
      cases h
      exact ⟨Or.inr ⟨[attr], rfl, Leads.entry hmem⟩,
        Cause.IsTold.unshown (Option.some_ne_none _)⟩

/-! ## Actions -/

/-- The method that is taken where none is given can be read. -/
theorem field_ne_null_of_readMethod {entries : Entries} {cause : Cause}
    (h : readMethod (orElseNull (Value.field "$method" entries) (.str "GET")) = .error cause) :
    Value.field "$method" entries ≠ .null := by
  intro hnull
  rw [hnull] at h
  revert h
  have hget : readMethod (orElseNull .null (.str "GET")) = .ok .get := by decide
  rw [hget]
  nofun

/-- The URL that is taken where none is given can be resolved below any set. -/
theorem field_ne_null_of_resolveUrl {own : Scope} {enclosing : List Scope}
    {templates : List UrlTemplate} {entries : Entries} {cause : Cause}
    (hown : own.attributes = []) (hcarries : Carries enclosing templates)
    (hdepth : 1 ≤ enclosing.length)
    (h : resolveUrl (own :: enclosing) (actionUrl entries) = .error cause) :
    Value.field "$url" entries ≠ .null := by
  intro hnull
  obtain ⟨url, hurl⟩ := (exists_resolveUrl_iff hown hcarries (actionUrl entries)).mpr
    ((urlFits_actionUrl_iff hdepth).mpr (Or.inl hnull))
  rw [h] at hurl
  cases hurl

theorem pointsInto_of_bindAction {enclosing : List Scope} {templates : List UrlTemplate}
    {name : String} {path : KeyPath} {entries : Entries} {failure : Failure}
    (hcarries : Carries enclosing templates) (hdepth : 1 ≤ enclosing.length)
    (h : (bindAction enclosing name path entries).result = .error failure) :
    PointsInto (.map entries) path failure := by
  simp only [bindAction, Recorded.record_bind_result, Recorded.bind_result_eq_error_iff,
    Recorded.ofChecked_result, Recorded.ofExcept_result_eq_error_iff] at h
  rcases h with hkeys | ⟨_, -, ⟨cause, hurl, rfl⟩ | ⟨url, -, ⟨cause, hmethod, rfl⟩ | ⟨_, -, h⟩⟩⟩
  · exact pointsInto_of_checkKeys hkeys
  · have hpresent := field_ne_null_of_resolveUrl rfl hcarries hdepth hurl
    exact ⟨Or.inr ⟨["$url"], rfl, Leads.entry (exists_mem_of_field_ne hpresent)⟩,
      (isTold_of_resolveUrl hurl).unshown⟩
  · have hpresent := field_ne_null_of_readMethod hmethod
    exact ⟨Or.inr ⟨["$method"], rfl, Leads.entry (exists_mem_of_field_ne hpresent)⟩,
      (isTold_of_readMethod hmethod).unshown⟩
  · rcases h with ⟨cause, hslots, rfl⟩ | ⟨_, -, hquery | ⟨_, -, hbody | ⟨_, -, h⟩⟩⟩
    · exact ⟨Or.inl rfl, (isTold_of_collectPathParams hslots).unshown⟩
    · exact pointsInto_of_readParams (Or.inl rfl) hquery
    · exact pointsInto_of_readParams (Or.inr rfl) hbody
    · rcases h with ⟨cause, horigins, rfl⟩ | ⟨_, -, h⟩
      · exact ⟨Or.inl rfl, (isTold_of_checkOrigins horigins).unshown⟩
      · cases h

/-! ## Members -/

/-- An action fails at itself or at one of its entries. -/
theorem pointsInto_of_bindMember_action {enclosing : List Scope} {templates : List UrlTemplate}
    {path : KeyPath} {key : String} {node : Value} {failure : Failure}
    (hcarries : Carries enclosing templates) (hdepth : 1 ≤ enclosing.length)
    (hkey : SchemaName.setName? key = none)
    (h : (bindMember enclosing path key node).result = .error failure) :
    PointsInto node path failure := by
  unfold bindMember at h
  cases node with
  | null =>
      simp only [hkey, Recorded.bind_result_eq_error_iff, Recorded.pure_result, reduceCtorEq,
        and_false, exists_false, or_false] at h
      -- there is nothing to point at inside
      have hinto := pointsInto_of_bindAction hcarries hdepth h
      refine ⟨Or.inl (hinto.place.resolve_right ?_), ?_⟩
      · rintro ⟨keys, -, hleads⟩
        cases hleads <;> contradiction
      · intro hnone
        obtain ⟨key, keys, -, hkey, -⟩ := hinto.unshown hnone
        cases hkey <;> contradiction
  | map entries =>
      simp only [hkey, Recorded.bind_result_eq_error_iff, Recorded.pure_result, reduceCtorEq,
        and_false, exists_false, or_false] at h
      exact pointsInto_of_bindAction hcarries hdepth h
  | _ =>
      simp only [hkey] at h
      cases h
      exact ⟨Or.inl rfl, Cause.IsTold.unshown (Option.some_ne_none _)⟩

/-- How an API set fails: at itself, at one of its attributes, or among its members once all else is
in order. -/
inductive SetFails (enclosing : List Scope) (name : String) (path : KeyPath) (node : Value)
    (failure : Failure) : Prop
  | here (at_path : failure.path = path) (unshown : Unshown node path failure)
  | own {entries : Entries} {key : String} {value : Value} (is_map : node = .map entries)
      (mem : (.str key, value) ∈ entries) (isAttribute : SchemaName.isAttributeKey key = true)
      (at_path : failure.path = path ++ [key]) (told : failure.cause.IsTold)
  | members {entries : Entries} {url : UrlTemplate} (is_map : node = .map entries)
      (hasUrl : Value.field "$url" entries ≠ .null)
      (keys : checkKeys setKeys true path entries = .ok ())
      (resolves : resolveUrl (setScope name path :: enclosing) (Value.field "$url" entries) =
        .ok url)
      (nested : (bindMembers ((setScope name path).assign "url" (.url url) :: enclosing) path []
        entries).result = .error failure)

theorem setFails_of_bindMember {enclosing : List Scope} {path : KeyPath} {key name : String}
    {node : Value} {failure : Failure} (hkey : SchemaName.setName? key = some name)
    (h : (bindMember enclosing path key node).result = .error failure) :
    SetFails enclosing name path node failure := by
  cases node with
  | map entries =>
      unfold bindMember at h
      simp only [hkey] at h
      split at h
      · cases h
        exact SetFails.here rfl (Cause.IsTold.unshown (Option.some_ne_none _))
      · rename_i hpresent
        simp only [Recorded.record_bind_result, Recorded.bind_result_eq_error_iff,
          Recorded.ofChecked_result, Recorded.ofExcept_result_eq_error_iff,
          Recorded.ofExcept_result_eq_ok_iff, Recorded.pure_result, reduceCtorEq, and_false,
          exists_false, or_false] at h
        rcases h with hkeys | ⟨_, hkeys, ⟨cause, hurl, rfl⟩ | ⟨url, hurl, hnested⟩⟩
        · rcases checkKeys_eq_error hkeys with
            ⟨hpath, key, value, hmem, -, htold⟩ | ⟨attr, value, hmem, hpath, htold, hattr⟩
          · exact SetFails.here hpath (unshown_of_key hpath hmem htold)
          · exact SetFails.own rfl hmem (hattr rfl) hpath htold
        · exact SetFails.own rfl (exists_mem_of_field_ne hpresent) (by decide) rfl
            (isTold_of_resolveUrl hurl)
        · exact SetFails.members rfl hpresent hkeys hurl hnested
  | _ =>
      unfold bindMember at h
      simp only [hkey] at h
      cases h
      exact SetFails.here rfl (Cause.IsTold.unshown (Option.some_ne_none _))

/-- Of siblings that cannot be bound, one is the first that cannot: its name is not in order, or it
cannot be bound itself. -/
theorem bindMembers_eq_error {lineage : List Scope} {path : KeyPath}
    {seen : List (String × String)} {entries : Entries} {failure : Failure}
    (h : (bindMembers lineage path seen entries).result = .error failure) :
    ∃ before key node after members, entries = before ++ (.str key, node) :: after ∧
      SchemaName.isAttributeKey key = false ∧
      (bindMembers lineage path seen before).result = .ok members ∧
      (failure.path = path ++ [key] ∧ failure.cause.IsTold ∨
        SchemaName.isMemberName (memberName key) = true ∧
        memberName key ∉ seen.map Prod.fst ++ memberNames before ∧
        (bindMember lineage (path ++ [key]) key node).result = .error failure) := by
  induction entries generalizing seen with
  | nil =>
      rw [bindMembers] at h
      cases h
  | cons entry rest ih =>
      cases hentry : declaresMember entry with
      | false =>
          rw [bindMembers_cons_of_not_member hentry] at h
          obtain ⟨before, key, node, after, members, rfl, hkey, hbefore, hfails⟩ := ih h
          refine ⟨entry :: before, key, node, after, members, rfl, hkey, ?_, ?_⟩
          · rw [bindMembers_cons_of_not_member hentry]
            exact hbefore
          · rw [memberNames, memberEntries_cons_of_not_member hentry]
            exact hfails
      | true =>
          obtain ⟨k, hk, hattribute⟩ := exists_key_of_declaresMember hentry
          obtain ⟨_, node⟩ := entry
          obtain rfl : _ = Value.str k := hk
          rw [bindMembers] at h
          simp only [hattribute, Bool.false_eq_true, if_false, Recorded.bind_result_eq_error_iff,
            Recorded.ofExcept_result_eq_error_iff, Recorded.ofExcept_result_eq_ok_iff,
            Recorded.pure_result, reduceCtorEq, and_false, exists_false, or_false] at h
          rcases h with ⟨cause, hname, rfl⟩ | ⟨_, hname, hmember | ⟨member, hmember, hrest⟩⟩
          · exact ⟨[], k, node, rest, [], rfl, hattribute, by rw [bindMembers]; rfl,
              Or.inl ⟨rfl, isTold_of_checkMemberName hname⟩⟩
          · obtain ⟨hvalid, hnew⟩ := checkMemberName_eq_ok_iff.mp hname
            refine ⟨[], k, node, rest, [], rfl, hattribute, by rw [bindMembers]; rfl, Or.inr ?_⟩
            refine ⟨hvalid, ?_, hmember⟩
            simpa [memberNames, memberEntries] using hnew
          · obtain ⟨before, key, node', after, members, rfl, hkey, hbefore, hfails⟩ := ih hrest
            refine ⟨(.str k, node) :: before, key, node', after, member :: members, rfl, hkey, ?_,
              hfails.imp_right ?_⟩
            · rw [bindMembers]
              simp only [hattribute, Bool.false_eq_true, if_false,
                Recorded.bind_result_eq_ok_iff, Recorded.ofExcept_result_eq_ok_iff,
                Recorded.pure_result]
              exact ⟨(), hname, member, hmember, members, hbefore, rfl⟩
            · rintro ⟨hvalid, hnew, hfails⟩
              refine ⟨hvalid, ?_, hfails⟩
              simpa [memberNames, memberEntries, hattribute] using hnew

end Schema
end ClientForge
