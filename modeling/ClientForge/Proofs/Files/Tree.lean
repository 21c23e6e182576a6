import ClientForge.Files.Tree
import ClientForge.Proofs.Basics
/-!
# Look-ups in file trees

What each operation on a tree does to the entry at any location, and to the content under any
number.  A file that is put where there was nothing, under a number of its own, and removed again
leaves the tree as it was (`erase_put`, `drain_fill`).

A tree keeps the ways of another if it has its directories and the same links (`Keeps`).  In a
closed tree everything lies in directories; it stays closed when an entry is put into a directory
(`Closed.put`).
-/

namespace ClientForge
namespace Files
namespace Tree

/-! ## Single entries -/

private theorem lookup_entry {κ α : Type} [BEq κ] [LawfulBEq κ] [DecidableEq κ] (key other : κ)
    (entry : α) (rest : List (κ × α)) :
    ((key, entry) :: rest).lookup other =
      if other = key then some entry else rest.lookup other := by
  by_cases hother : other = key
  · rw [hother, List.lookup_cons_self, if_pos rfl]
  · have hne : (other == key) = false := beq_eq_false_iff_ne.mpr hother
    rw [List.lookup_cons, hne, if_neg hother]

theorem lookup_putEntry (place other : Location) (entry : Entry)
    (entries : List (Location × Entry)) :
    (putEntry place entry entries).lookup other =
      if other = place then some entry else entries.lookup other := by
  induction entries with
  | nil => rw [putEntry, lookup_entry]
  | cons first rest ih =>
      obtain ⟨key, old⟩ := first
      by_cases hkey : key = place
      · rw [putEntry, if_pos hkey, lookup_entry, lookup_entry, hkey]
        by_cases hother : other = place
        · rw [if_pos hother, if_pos hother]
        · rw [if_neg hother, if_neg hother, if_neg hother]
      · rw [putEntry, if_neg hkey, lookup_entry, lookup_entry, ih]
        by_cases hother : other = key
        · have hplace : other ≠ place := fun heq => hkey (hother.symm.trans heq)
          rw [if_pos hother, if_neg hplace, if_pos hother]
        · rw [if_neg hother, if_neg hother]

variable {tree : Tree}

@[simp] theorem find?_nil (tree : Tree) : tree.find? [] = some .directory := by
  simp [find?]

/-- Only the root is always there. -/
theorem ne_nil_of_find?_eq_none {place : Location} (h : tree.find? place = none) :
    place ≠ [] := by
  rintro rfl
  simp at h

theorem find?_put {place : Location} (hplace : place ≠ []) (entry : Entry) (other : Location) :
    (tree.put place entry).find? other =
      if other = place then some entry else tree.find? other := by
  by_cases hother : other = []
  · subst hother
    rw [find?_nil, find?_nil, if_neg (Ne.symm hplace)]
  · unfold find? put
    rw [if_neg hother, if_neg hother]
    exact lookup_putEntry place other entry tree.entries

/-- Away from the root, a location without an entry does not occur. -/
theorem not_mem_of_find?_eq_none {place : Location} (h : tree.find? place = none) :
    place ∉ tree.entries.map Prod.fst := by
  unfold find? at h
  split at h
  · cases h
  · rintro hmem
    obtain ⟨entry, hentry, rfl⟩ := List.mem_map.mp hmem
    simpa using List.lookup_eq_none_iff.mp h entry hentry

/-- A new entry that is erased again was never there. -/
theorem erase_put {place : Location} (h : tree.find? place = none) (entry : Entry) :
    (tree.put place entry).erase place = tree := by
  have habsent := not_mem_of_find?_eq_none h
  have hentries : ∀ entries : List (Location × Entry), place ∉ entries.map Prod.fst →
      (putEntry place entry entries).filter (·.1 ≠ place) = entries := by
    intro entries hentries
    induction entries with
    | nil => simp [putEntry]
    | cons first rest ih =>
        rw [List.map_cons, List.mem_cons, not_or] at hentries
        have hne : first.1 ≠ place := Ne.symm hentries.1
        rw [putEntry, if_neg hne, List.filter_cons_of_pos (by simpa using hne), ih hentries.2]
  unfold put erase
  rw [hentries _ habsent]

/-! ## Contents -/

@[simp] theorem find?_fill (number : Nat) (octets : List UInt8) (place : Location) :
    (tree.fill number octets).find? place = tree.find? place := rfl

@[simp] theorem content_put (place : Location) (entry : Entry) (number : Nat) :
    (tree.put place entry).content number = tree.content number := rfl

private theorem lookup_filter_ne {number other : Nat} (hother : other ≠ number)
    (contents : List (Nat × List UInt8)) :
    (contents.filter (·.1 ≠ number)).lookup other = contents.lookup other := by
  induction contents with
  | nil => rfl
  | cons first rest ih =>
      obtain ⟨key, old⟩ := first
      by_cases hkey : key = number
      · rw [List.filter_cons_of_neg (by simpa using hkey), lookup_entry,
          if_neg (by rw [hkey]; exact hother), ih]
      · rw [List.filter_cons_of_pos (by simpa using hkey), lookup_entry, lookup_entry, ih]

theorem content_fill (number other : Nat) (octets : List UInt8) :
    (tree.fill number octets).content other =
      if other = number then octets else tree.content other := by
  unfold content fill
  dsimp only
  rw [lookup_entry]
  by_cases hother : other = number
  · rw [if_pos hother, if_pos hother]
    rfl
  · rw [if_neg hother, if_neg hother, lookup_filter_ne hother]

/-- Filling twice is filling once. -/
theorem fill_fill (number : Nat) (first second : List UInt8) :
    (tree.fill number first).fill number second = tree.fill number second := by
  unfold fill
  simp [List.filter_filter]

/-- A new content that is drained again was never there. -/
theorem drain_fill {number : Nat} (h : number ∉ tree.contents.map Prod.fst)
    (octets : List UInt8) : (tree.fill number octets).drain number = tree := by
  have hfilter : tree.contents.filter (·.1 ≠ number) = tree.contents := by
    rw [List.filter_eq_self]
    intro entry hentry
    have hne : entry.1 ≠ number := fun heq => h (heq ▸ List.mem_map_of_mem hentry)
    simpa using hne
  unfold drain fill
  simp only [ne_eq, not_true_eq_false, decide_false, Bool.false_eq_true, not_false_eq_true,
    List.filter_cons_of_neg]
  rw [hfilter, hfilter]

private theorem le_foldl_max (list : List Nat) (start : Nat) :
    start ≤ list.foldl max start ∧ ∀ n ∈ list, n ≤ list.foldl max start := by
  induction list generalizing start with
  | nil => exact ⟨Nat.le_refl _, nofun⟩
  | cons first rest ih =>
      obtain ⟨hstart, hrest⟩ := ih (max start first)
      refine ⟨by rw [List.foldl_cons]; omega, fun n hn => ?_⟩
      rw [List.foldl_cons]
      rcases List.mem_cons.mp hn with rfl | hmem
      · omega
      · exact hrest n hmem

theorem freshNumber_not_mem (tree : Tree) : tree.freshNumber ∉ tree.numbers := by
  intro hmem
  have hle := (le_foldl_max tree.numbers 0).2 _ hmem
  unfold freshNumber at hle
  omega

theorem freshNumber_not_mem_contents (tree : Tree) :
    tree.freshNumber ∉ tree.contents.map Prod.fst :=
  fun hmem => tree.freshNumber_not_mem (List.mem_append_right _ hmem)

/-- No file has the fresh number. -/
theorem find?_ne_freshNumber (tree : Tree) (place : Location) :
    tree.find? place ≠ some (.file tree.freshNumber) := by
  intro h
  unfold find? at h
  split at h
  · cases h
  · obtain ⟨before, key, hentries, -⟩ := List.lookup_eq_some_iff.mp h
    refine tree.freshNumber_not_mem (List.mem_append_left _ (List.mem_filterMap.mpr ?_))
    exact ⟨_, by rw [hentries]; exact List.mem_append_right _ List.mem_cons_self, rfl⟩

/-! ## What can be seen -/

theorem seen?_congr {next : Tree} {place : Location} (hfind : next.find? place = tree.find? place)
    (hcontent : ∀ number, tree.find? place = some (.file number) →
      next.content number = tree.content number) : next.seen? place = tree.seen? place := by
  unfold seen?
  rw [hfind]
  cases hentry : tree.find? place with
  | none => rfl
  | some entry =>
      cases entry with
      | file number => simp only [Option.map_some, see, hcontent number hentry]
      | directory => rfl
      | link target => rfl

theorem seen?_of_file {place : Location} {number : Nat}
    (h : tree.find? place = some (.file number)) :
    tree.seen? place = some (.file (tree.content number)) := by
  unfold seen?
  rw [h]
  rfl

theorem seen?_of_directory {place : Location} (h : tree.find? place = some .directory) :
    tree.seen? place = some .directory := by
  unfold seen?
  rw [h]
  rfl

theorem seen?_of_none {place : Location} (h : tree.find? place = none) :
    tree.seen? place = none := by
  unfold seen?
  rw [h]
  rfl

/-! ## Trees with the same ways -/

/-- The second tree has all directories of the first one, and the same links. -/
structure Keeps (tree next : Tree) : Prop where
  directories : ∀ place, tree.find? place = some .directory → next.find? place = some .directory
  links : ∀ place target,
    next.find? place = some (.link target) ↔ tree.find? place = some (.link target)

theorem Keeps.trans {next last : Tree} (h : tree.Keeps next) (h' : next.Keeps last) :
    tree.Keeps last :=
  ⟨fun place hdir => h'.directories place (h.directories place hdir),
    fun place target => (h'.links place target).trans (h.links place target)⟩

theorem keeps_fill (tree : Tree) (number : Nat) (octets : List UInt8) :
    tree.Keeps (tree.fill number octets) :=
  ⟨fun _ => id, fun _ _ => Iff.rfl⟩

/-- What is put where there is neither a directory nor a link, and is no link itself, changes no
way. -/
theorem keeps_put {place : Location} {entry : Entry}
    (hdir : tree.find? place ≠ some .directory)
    (hlink : ∀ target, tree.find? place ≠ some (.link target))
    (hentry : ∀ target, entry ≠ .link target) : tree.Keeps (tree.put place entry) := by
  have hplace : place ≠ [] := by
    rintro rfl
    exact hdir tree.find?_nil
  constructor
  · intro other hother
    have hne : other ≠ place := fun heq => hdir (heq ▸ hother)
    rw [find?_put hplace, if_neg hne]
    exact hother
  · intro other target
    rw [find?_put hplace]
    split
    · rename_i heq
      rw [heq, Option.some.injEq]
      exact iff_of_false (hentry target) (hlink target)
    · rfl

/-- Everything lies in a directory. -/
def Closed (tree : Tree) : Prop :=
  ∀ place name entry, tree.find? (place ++ [name]) = some entry →
    tree.find? place = some .directory

/-- In a closed tree all that is above an entry is a directory. -/
theorem Closed.directory_of_isPrefix (h : tree.Closed) {place more : Location} (hmore : more ≠ [])
    {entry : Entry} (hentry : tree.find? (place ++ more) = some entry) :
    tree.find? place = some .directory := by
  induction more generalizing place with
  | nil => exact absurd rfl hmore
  | cons name rest ih =>
      by_cases hrest : rest = []
      · subst hrest
        exact h place name entry hentry
      · refine h place name .directory (ih hrest ?_)
        rw [List.append_assoc]
        exact hentry

/-- An entry can be put into a directory.  Only a directory may take the place of a directory, since
there may be something in it. -/
theorem Closed.put {place : Location} {name : String} {entry : Entry} (h : tree.Closed)
    (hplace : tree.find? place = some .directory)
    (hentry : tree.find? (place ++ [name]) ≠ some .directory ∨ entry = .directory) :
    (tree.put (place ++ [name]) entry).Closed := by
  have hne : place ++ [name] ≠ [] := by simp
  intro other own found hfound
  have hdir : tree.find? other = some .directory := by
    rw [find?_put hne] at hfound
    split at hfound
    · rename_i heq
      rw [(List.append_inj' heq rfl).1]
      exact hplace
    · exact h other own found hfound
  rw [find?_put hne]
  split
  · rename_i heq
    rcases hentry with hnot | rfl
    · exact absurd (heq ▸ hdir) hnot
    · rfl
  · exact hdir

end Tree
end Files
end ClientForge
