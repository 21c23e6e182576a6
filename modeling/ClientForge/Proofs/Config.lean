import ClientForge.Config
import ClientForge.Proofs.Document.Keys
import ClientForge.Proofs.Document.Order
import Mathlib.Tactic.MkIffOfInductiveProp
/-!
# Reading settings

Settings are read entry by entry, and each known entry sets one field.  In a mapping in which no key
stands twice, `Sets` says what the fields are in the end: the value under the field's key, or what
the field was before (`readEntries_eq_ok_iff`).  From it follow which mappings are accepted, that
neither the order of keys nor unknown keys matter, and that settings are written as they were read.
-/

namespace ClientForge
namespace Config

open Value (lookup? lookup?_cons_of_ne Reordered EntriesReordered)

/-! ## Values that describe settings -/

/-- The keys of the settings that are no mapping. -/
def plainKeys : List String :=
  ["add_generation_comment", "generation_command", "class_name"]

/-- The keys of the output settings. -/
def outputKeys : List String :=
  ["mode", "validate_before_write", "atomic_write"]

/-- What holds of the value under a key, should the key be present. -/
def IfPresent (key : String) (P : Value → Prop) (entries : List (Value × Value)) : Prop :=
  ∀ v, lookup? key entries = some v → P v

def IsFlag (v : Value) : Prop :=
  ∃ b, v = .bool b

def IsText (v : Value) : Prop :=
  ∃ s, v = .str s

def IsMode (v : Value) : Prop :=
  v = .str "force" ∨ v = .str "error"

/-- A mapping whose known keys have values of their types. -/
def IsOutput (v : Value) : Prop :=
  ∃ entries, v = .map entries ∧ IfPresent "mode" IsMode entries ∧
    IfPresent "validate_before_write" IsFlag entries ∧ IfPresent "atomic_write" IsFlag entries

/-- A mapping whose known keys have values of their types, the output settings included. -/
def Accepted (v : Value) : Prop :=
  ∃ entries, v = .map entries ∧ IfPresent "add_generation_comment" IsFlag entries ∧
    IfPresent "generation_command" IsText entries ∧ IfPresent "class_name" IsText entries ∧
    IfPresent "output" IsOutput entries

/-- Whether a key is one of some names. -/
def isAmong (names : List String) : Value → Bool
  | .str key => names.contains key
  | _ => false

/-- Output settings without unknown keys. -/
def knownOutput : Value → Value
  | .map entries => .map (entries.filter fun entry => isAmong outputKeys entry.1)
  | v => v

/-- An entry without unknown keys below it, if its own key is known. -/
def knownPart? : Value × Value → Option (Value × Value)
  | (.str key, v) =>
    if key = "output" then some (.str key, knownOutput v)
    else if plainKeys.contains key then some (.str key, v)
    else none
  | _ => none

/-- Settings without unknown keys, at either level. -/
def known : Value → Value
  | .map entries => .map (entries.filterMap knownPart?)
  | v => v

/-- Each of some keys that is present in a mapping has the same value in another. -/
def Carries (keys : List String) (entries entries' : List (Value × Value)) : Prop :=
  ∀ key ∈ keys, ∀ v, lookup? key entries = some v → lookup? key entries' = some v

/-- A mapping that agrees with another on every known key that is present there. -/
def Repeats (v written : Value) : Prop :=
  ∃ entries entries', v = .map entries ∧ written = .map entries' ∧
    Carries plainKeys entries entries' ∧
    ∀ output, lookup? "output" entries = some output → ∃ inner inner', output = .map inner ∧
      lookup? "output" entries' = some (.map inner') ∧ Carries outputKeys inner inner'

/-! ## Single settings -/

theorem readFlag_eq_ok_iff {field : String} {v : Value} {b : Bool} :
    readFlag field v = .ok b ↔ v = .bool b := by
  cases v <;> simp [readFlag]

theorem readText_eq_ok_iff {field : String} {v : Value} {s : String} :
    readText field v = .ok s ↔ v = .str s := by
  cases v <;> simp [readText]

theorem ofName?_eq_some_iff {s : String} {mode : OutputMode} :
    OutputMode.ofName? s = some mode ↔ s = mode.name := by
  constructor
  · intro h
    have hname := List.find?_some h
    exact (of_decide_eq_true hname).symm
  · rintro rfl
    cases mode <;> rfl

theorem readMode_eq_ok_iff {v : Value} {mode : OutputMode} :
    readMode v = .ok mode ↔ v = .str mode.name := by
  cases v with
  | str s =>
      rw [readMode, Value.str.injEq, ← ofName?_eq_some_iff]
      cases OutputMode.ofName? s <;> simp
  | _ => simp [readMode]

theorem isMode_iff {v : Value} : IsMode v ↔ ∃ mode : OutputMode, v = .str mode.name := by
  constructor
  · rintro (rfl | rfl)
    · exact ⟨.force, rfl⟩
    · exact ⟨.error, rfl⟩
  · rintro ⟨mode, rfl⟩
    cases mode with
    | force => exact Or.inl rfl
    | error => exact Or.inr rfl

/-! ## Output settings -/

/-- Output settings as they are written. -/
def outputEntries (o : OutputConfig) : List (Value × Value) :=
  [(.str "mode", .str o.mode.name), (.str "validate_before_write", .bool o.validateBeforeWrite),
   (.str "atomic_write", .bool o.atomicWrite)]

theorem readOutput_map_eq_ok_iff {entries : List (Value × Value)} {o : OutputConfig} :
    readOutput (.map entries) = .ok o ↔
      (lookup? "mode" entries).getD (.str "force") = .str o.mode.name ∧
      (lookup? "validate_before_write" entries).getD (.bool true) = .bool o.validateBeforeWrite ∧
      (lookup? "atomic_write" entries).getD (.bool true) = .bool o.atomicWrite := by
  simp only [readOutput, exceptBind_eq_ok_iff, readMode_eq_ok_iff, readFlag_eq_ok_iff]
  constructor
  · rintro ⟨mode, hmode, validate, hvalidate, atomic, hatomic, heq⟩
    cases heq
    exact ⟨hmode, hvalidate, hatomic⟩
  · rintro ⟨hmode, hvalidate, hatomic⟩
    exact ⟨_, hmode, _, hvalidate, _, hatomic, rfl⟩

@[simp] theorem readOutput_outputEntries (o : OutputConfig) :
    readOutput (.map (outputEntries o)) = .ok o :=
  readOutput_map_eq_ok_iff.mpr ⟨rfl, rfl, rfl⟩

/-! ## Entry by entry -/

/-- Settings that come from others by entries: a field is the value under its key, or as it was. -/
@[mk_iff] structure Sets (start : Config) (entries : List (Value × Value)) (c : Config) :
    Prop where
  addGenerationComment : (lookup? "add_generation_comment" entries).getD
    (.bool start.addGenerationComment) = .bool c.addGenerationComment
  generationCommand : (lookup? "generation_command" entries).getD
    (.str start.generationCommand) = .str c.generationCommand
  className : (lookup? "class_name" entries).getD (.str start.className) = .str c.className
  output : readOutput ((lookup? "output" entries).getD (.map (outputEntries start.output))) =
    .ok c.output

theorem sets_nil_iff {start c : Config} : Sets start [] c ↔ start = c := by
  obtain ⟨comment, command, name, output⟩ := c
  constructor
  · rintro ⟨hcomment, hcommand, hname, houtput⟩
    obtain rfl : start.output = output :=
      Except.ok.inj ((readOutput_outputEntries start.output).symm.trans houtput)
    cases hcomment
    cases hcommand
    cases hname
    rfl
  · rintro rfl
    exact ⟨rfl, rfl, rfl, readOutput_outputEntries _⟩

/-- An entry sets one field at most, and no later one sets it again. -/
theorem sets_cons_iff {start c : Config} {key value : Value} {rest : List (Value × Value)}
    (hkey : key ∉ rest.map Prod.fst) :
    Sets start ((key, value) :: rest) c ↔
      ∃ next, readEntry start key value = .ok next ∧ Sets next rest c := by
  unfold readEntry
  -- a case for each known key, which is then absent from the rest, and one for all others
  split
  · have hnone := Value.lookup?_eq_none_iff.mpr hkey
    simp [exceptMap_eq_ok_iff, sets_iff, lookup?, hnone, and_comm, and_left_comm]
  · have hnone := Value.lookup?_eq_none_iff.mpr hkey
    simp [-Bool.exists_bool, exceptMap_eq_ok_iff, sets_iff, lookup?, hnone, readFlag_eq_ok_iff]
  · have hnone := Value.lookup?_eq_none_iff.mpr hkey
    simp [exceptMap_eq_ok_iff, sets_iff, lookup?, hnone, readText_eq_ok_iff, and_left_comm]
  · have hnone := Value.lookup?_eq_none_iff.mpr hkey
    simp [exceptMap_eq_ok_iff, sets_iff, lookup?, hnone, readText_eq_ok_iff, and_left_comm]
  · rename_i houtput hcomment hcommand hname
    simp [sets_iff, lookup?_cons_of_ne houtput, lookup?_cons_of_ne hcomment,
      lookup?_cons_of_ne hcommand, lookup?_cons_of_ne hname]

/-- Where no key stands twice, entries set each field to the value under its key. -/
theorem readEntries_eq_ok_iff {start c : Config} {entries : List (Value × Value)}
    (h : (entries.map Prod.fst).Nodup) :
    readEntries start entries = .ok c ↔ Sets start entries c := by
  induction entries generalizing start with
  | nil => rw [sets_nil_iff, readEntries, Except.ok.injEq]
  | cons entry rest ih =>
      obtain ⟨key, value⟩ := entry
      obtain ⟨hkey, hrest⟩ := List.nodup_cons.mp h
      -- the rest starts from what this entry leaves
      rw [sets_cons_iff hkey, readEntries]
      cases readEntry start key value with
      | error fault => simp
      | ok next => simp [ih hrest]

/-! ## Unknown keys -/

theorem lookup?_filter_isAmong {names : List String} {key : String} (hkey : key ∈ names)
    (entries : List (Value × Value)) :
    lookup? key (entries.filter fun entry => isAmong names entry.1) = lookup? key entries := by
  induction entries with
  | nil => rfl
  | cons entry rest ih =>
      obtain ⟨k, v⟩ := entry
      by_cases hk : k = .str key
      · subst hk
        have hamong : isAmong names (.str key) = true := List.contains_iff_mem.mpr hkey
        rw [List.filter_cons, if_pos hamong, lookup?, lookup?, if_pos rfl, if_pos rfl]
      · rw [lookup?_cons_of_ne hk, ← ih, List.filter_cons]
        split
        · exact lookup?_cons_of_ne hk _ _
        · rfl

theorem readOutput_knownOutput (v : Value) : readOutput (knownOutput v) = readOutput v := by
  cases v with
  | map entries =>
      have hlookup : ∀ key ∈ outputKeys, lookup? key
          (entries.filter fun entry => isAmong outputKeys entry.1) = lookup? key entries :=
        fun key hkey => lookup?_filter_isAmong hkey entries
      rw [knownOutput, readOutput, readOutput, hlookup "mode" (by decide),
        hlookup "validate_before_write" (by decide), hlookup "atomic_write" (by decide)]
  | _ => rfl

/-- An entry under an unknown key sets nothing. -/
theorem readEntry_of_unknown {start : Config} {key value : Value}
    (h : knownPart? (key, value) = none) : readEntry start key value = .ok start := by
  unfold readEntry
  split
  · simp [knownPart?] at h
  · simp [knownPart?, plainKeys] at h
  · simp [knownPart?, plainKeys] at h
  · simp [knownPart?, plainKeys] at h
  · rfl

theorem key_of_knownPart? {entry entry' : Value × Value} (h : knownPart? entry = some entry') :
    entry'.1 = entry.1 := by
  obtain ⟨key, value⟩ := entry
  cases key with
  | str s =>
      rw [knownPart?] at h
      split at h
      · cases h
        rfl
      · split at h
        · cases h
          rfl
        · cases h
  | _ => cases h

/-- An entry under a known key sets what it did. -/
theorem readEntry_of_known {start : Config} {key value : Value} {entry : Value × Value}
    (h : knownPart? (key, value) = some entry) :
    readEntry start entry.1 entry.2 = readEntry start key value := by
  cases key with
  | str s =>
      rw [knownPart?] at h
      split at h
      · rename_i hs
        cases h
        rw [hs, readEntry, readEntry, readOutput_knownOutput]
      · split at h
        · cases h
          rfl
        · cases h
  | _ => cases h

theorem readEntries_known (start : Config) (entries : List (Value × Value)) :
    readEntries start (entries.filterMap knownPart?) = readEntries start entries := by
  induction entries generalizing start with
  | nil => rfl
  | cons entry rest ih =>
      obtain ⟨key, value⟩ := entry
      cases hentry : knownPart? (key, value) with
      | none =>
          rw [List.filterMap_cons_none hentry, ih, readEntries, readEntry_of_unknown hentry]
      | some entry =>
          rw [List.filterMap_cons_some hentry, readEntries, readEntries,
            readEntry_of_known hentry]
          cases readEntry start key value with
          | error fault => rfl
          | ok next => exact ih next

/-- Unknown keys do not matter, not even to a failure. -/
theorem ofValue_known (v : Value) : ofValue (known v) = ofValue v := by
  cases v with
  | map entries => exact readEntries_known {} entries
  | _ => rfl

theorem keysOnce_known {v : Value} (h : v.KeysOnce) : (known v).KeysOnce := by
  cases v with
  | map entries =>
      -- entries keep their keys, so those that are left still differ
      refine List.pairwise_map.mpr ((List.pairwise_map.mp h).filterMap _ ?_)
      intro entry entry' hne known hknown known' hknown'
      rw [key_of_knownPart? hknown, key_of_knownPart? hknown']
      exact hne
  | _ => exact trivial

/-! ## The order of keys -/

theorem getD_eq_of_reordered {entries entries' : List (Value × Value)} {key : String}
    {default scalar : Value} (h : EntriesReordered entries entries')
    (hscalar : ∀ v, Reordered scalar v → v = scalar)
    (heq : (lookup? key entries).getD default = scalar) :
    (lookup? key entries').getD default = scalar := by
  have hrelated := Value.getD_lookup?_related (.same default) h.keys (h.values (.str key))
  rw [heq] at hrelated
  exact hscalar _ hrelated

theorem readOutput_of_reordered {v v' : Value} {o : OutputConfig} (h : Reordered v v')
    (hread : readOutput v = .ok o) : readOutput v' = .ok o := by
  cases h with
  | same => exact hread
  | list length values => cases hread
  | map keys values =>
      obtain ⟨hmode, hvalidate, hatomic⟩ := readOutput_map_eq_ok_iff.mp hread
      refine readOutput_map_eq_ok_iff.mpr ⟨?_, ?_, ?_⟩
      · exact getD_eq_of_reordered ⟨keys, values⟩ (fun _ => Reordered.eq_of_str) hmode
      · exact getD_eq_of_reordered ⟨keys, values⟩ (fun _ => Reordered.eq_of_bool) hvalidate
      · exact getD_eq_of_reordered ⟨keys, values⟩ (fun _ => Reordered.eq_of_bool) hatomic

theorem Sets.of_reordered {start c : Config} {entries entries' : List (Value × Value)}
    (h : Sets start entries c) (hsame : EntriesReordered entries entries') :
    Sets start entries' c where
  addGenerationComment :=
    getD_eq_of_reordered hsame (fun _ => Reordered.eq_of_bool) h.addGenerationComment
  generationCommand :=
    getD_eq_of_reordered hsame (fun _ => Reordered.eq_of_str) h.generationCommand
  className := getD_eq_of_reordered hsame (fun _ => Reordered.eq_of_str) h.className
  output := readOutput_of_reordered (Value.getD_lookup?_related (.same _) hsame.keys
    (hsame.values (.str "output"))) h.output

theorem ofValue_of_reordered {v v' : Value} {c : Config} (h : Reordered v v') (hv : v.KeysOnce)
    (hv' : v'.KeysOnce) (hread : ofValue v = .ok c) : ofValue v' = .ok c := by
  cases h with
  | same => exact hread
  | list length values => cases hread
  | map keys values =>
      have hsets := (readEntries_eq_ok_iff hv).mp hread
      exact (readEntries_eq_ok_iff hv').mpr (hsets.of_reordered ⟨keys, values⟩)

/-! ## Acceptance -/

/-- A key that may be absent can be looked at with a default that fits. -/
theorem ifPresent_iff {key : String} {P : Value → Prop} {entries : List (Value × Value)}
    {default : Value} (hdefault : P default) :
    IfPresent key P entries ↔ P ((lookup? key entries).getD default) := by
  unfold IfPresent
  cases lookup? key entries with
  | none => simpa using hdefault
  | some v => simp

theorem exists_readOutput_iff {v : Value} : (∃ o, readOutput v = .ok o) ↔ IsOutput v := by
  constructor
  · rintro ⟨o, h⟩
    cases v with
    | map entries =>
        obtain ⟨hmode, hvalidate, hatomic⟩ := readOutput_map_eq_ok_iff.mp h
        exact ⟨entries, rfl, (ifPresent_iff (Or.inl rfl)).mpr (isMode_iff.mpr ⟨_, hmode⟩),
          (ifPresent_iff ⟨_, rfl⟩).mpr ⟨_, hvalidate⟩, (ifPresent_iff ⟨_, rfl⟩).mpr ⟨_, hatomic⟩⟩
    | _ => cases h
  · rintro ⟨entries, rfl, hmode, hvalidate, hatomic⟩
    obtain ⟨mode, hmode⟩ := isMode_iff.mp ((ifPresent_iff (Or.inl rfl)).mp hmode)
    obtain ⟨validate, hvalidate⟩ := (ifPresent_iff ⟨_, rfl⟩).mp hvalidate
    obtain ⟨atomic, hatomic⟩ := (ifPresent_iff ⟨_, rfl⟩).mp hatomic
    exact ⟨⟨mode, validate, atomic⟩, readOutput_map_eq_ok_iff.mpr ⟨hmode, hvalidate, hatomic⟩⟩

theorem exists_sets_iff {start : Config} {entries : List (Value × Value)} :
    (∃ c, Sets start entries c) ↔ Accepted (.map entries) := by
  have hdefault : IsOutput (.map (outputEntries start.output)) :=
    exists_readOutput_iff.mp ⟨_, readOutput_outputEntries _⟩
  constructor
  · rintro ⟨c, hcomment, hcommand, hname, houtput⟩
    exact ⟨entries, rfl, (ifPresent_iff ⟨_, rfl⟩).mpr ⟨_, hcomment⟩,
      (ifPresent_iff ⟨_, rfl⟩).mpr ⟨_, hcommand⟩, (ifPresent_iff ⟨_, rfl⟩).mpr ⟨_, hname⟩,
      (ifPresent_iff hdefault).mpr (exists_readOutput_iff.mp ⟨_, houtput⟩)⟩
  · rintro ⟨_, heq, hcomment, hcommand, hname, houtput⟩
    cases heq
    obtain ⟨comment, hcomment⟩ := (ifPresent_iff ⟨_, rfl⟩).mp hcomment
    obtain ⟨command, hcommand⟩ := (ifPresent_iff ⟨_, rfl⟩).mp hcommand
    obtain ⟨name, hname⟩ := (ifPresent_iff ⟨_, rfl⟩).mp hname
    obtain ⟨output, houtput⟩ := exists_readOutput_iff.mpr ((ifPresent_iff hdefault).mp houtput)
    exact ⟨⟨comment, command, name, output⟩, hcomment, hcommand, hname, houtput⟩

theorem exists_ofValue_iff {v : Value} (h : v.KeysOnce) :
    (∃ c, ofValue v = .ok c) ↔ Accepted v := by
  cases v with
  | map entries =>
      rw [← exists_sets_iff]
      exact exists_congr fun c => readEntries_eq_ok_iff h
  | _ => simp [ofValue, Accepted]

/-! ## Writing -/

theorem ofValue_toValue (c : Config) : ofValue (toValue c) = .ok c := by
  have honce : (toValue c).KeysOnce := by
    simp [toValue, Value.KeysOnce]
  exact (readEntries_eq_ok_iff honce).mpr ⟨rfl, rfl, rfl, readOutput_outputEntries c.output⟩

theorem eq_of_getD_lookup? {key : String} {entries : List (Value × Value)} {default v w : Value}
    (h : (lookup? key entries).getD default = w) (hv : lookup? key entries = some v) : w = v := by
  rw [hv] at h
  exact h.symm

theorem carries_outputEntries {entries : List (Value × Value)} {o : OutputConfig}
    (h : readOutput (.map entries) = .ok o) : Carries outputKeys entries (outputEntries o) := by
  obtain ⟨hmode, hvalidate, hatomic⟩ := readOutput_map_eq_ok_iff.mp h
  intro key hkey v hv
  simp only [outputKeys, List.mem_cons, List.not_mem_nil, or_false] at hkey
  rcases hkey with rfl | rfl | rfl
  · exact congrArg some (eq_of_getD_lookup? hmode hv)
  · exact congrArg some (eq_of_getD_lookup? hvalidate hv)
  · exact congrArg some (eq_of_getD_lookup? hatomic hv)

/-- What is set is written again. -/
theorem Sets.repeats {start c : Config} {entries : List (Value × Value)}
    (h : Sets start entries c) : Repeats (.map entries) (toValue c) := by
  refine ⟨entries, _, rfl, rfl, ?_, ?_⟩
  · intro key hkey v hv
    simp only [plainKeys, List.mem_cons, List.not_mem_nil, or_false] at hkey
    rcases hkey with rfl | rfl | rfl
    · exact congrArg some (eq_of_getD_lookup? h.addGenerationComment hv)
    · exact congrArg some (eq_of_getD_lookup? h.generationCommand hv)
    · exact congrArg some (eq_of_getD_lookup? h.className hv)
  · intro output hv
    have houtput := h.output
    rw [hv] at houtput
    obtain ⟨inner, rfl, -⟩ := exists_readOutput_iff.mp ⟨_, houtput⟩
    exact ⟨inner, outputEntries c.output, rfl, rfl, carries_outputEntries houtput⟩

/-- Settings that are written are read again.  A value is accepted exactly if it is a mapping whose
known keys have values of their types, what is read depends neither on the order of keys nor on
unknown ones, and it is written as it stood under every known key.  This is said of values in which
no key stands twice, such as those of JSON texts. -/
theorem ofValue_exact :
    (∀ c, ofValue (toValue c) = .ok c) ∧
    (∀ text v, Json.parse text = .ok v → v.KeysOnce) ∧
    ∀ v : Value, v.KeysOnce →
      ((∃ c, ofValue v = .ok c) ↔ Accepted v) ∧
      (∀ v' : Value, v'.KeysOnce → Reordered (known v) (known v') →
        ∀ c, ofValue v = .ok c ↔ ofValue v' = .ok c) ∧
      ∀ c, ofValue v = .ok c → Repeats v (toValue c) := by
  refine ⟨ofValue_toValue, fun _ _ => Json.keysOnce_of_parse, fun v hv => ⟨?_, ?_, ?_⟩⟩
  · exact exists_ofValue_iff hv
  · intro v' hv' hsame c
    rw [← ofValue_known v, ← ofValue_known v']
    exact ⟨ofValue_of_reordered hsame (keysOnce_known hv) (keysOnce_known hv'),
      ofValue_of_reordered hsame.symm (keysOnce_known hv') (keysOnce_known hv)⟩
  · intro c hc
    cases v with
    | map entries => exact ((readEntries_eq_ok_iff hv).mp hc).repeats
    | _ => cases hc

/-- Settings among unknown keys. -/
def scatteredSettings : Value :=
  .map [(.str "x", .list []),
    (.str "output", .map [(.str "y", .int 1), (.str "mode", .str "error")]),
    (.str "class_name", .str "A")]

/-- The same settings in another order, without unknown keys. -/
def neatSettings : Value :=
  .map [(.str "class_name", .str "A"), (.str "output", .map [(.str "mode", .str "error")])]

/-- Both are read alike. -/
theorem ofValue_exact_scattered :
    scatteredSettings.KeysOnce ∧ neatSettings.KeysOnce ∧
    Reordered (known scatteredSettings) (known neatSettings) ∧
    Accepted scatteredSettings ∧
    ∃ c, ofValue scatteredSettings = .ok c ∧ ofValue neatSettings = .ok c ∧
      Repeats scatteredSettings (toValue c) ∧ c.output.mode = .error := by
  have honce : scatteredSettings.KeysOnce := by
    simp [scatteredSettings, Value.KeysOnce]
  have honce' : neatSettings.KeysOnce := by
    simp [neatSettings, Value.KeysOnce]
  have hsame : Reordered (known scatteredSettings) (known neatSettings) :=
    Reordered.of_perm_of_forall₂ (keysOnce_known honce) (List.Perm.swap _ _ [])
      (List.Forall₂.cons ⟨rfl, .same _⟩ (List.Forall₂.cons ⟨rfl, .same _⟩ List.Forall₂.nil))
  have hread : ofValue scatteredSettings =
      .ok { className := "A", output := { mode := .error } } := rfl
  obtain ⟨-, -, hexact⟩ := ofValue_exact
  obtain ⟨haccepted, hreordered, hrepeats⟩ := hexact scatteredSettings honce
  exact ⟨honce, honce', hsame, haccepted.mp ⟨_, hread⟩, _, hread,
    (hreordered neatSettings honce' hsame _).mp hread, hrepeats _ hread, rfl⟩

end Config
end ClientForge
