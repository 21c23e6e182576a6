import ClientForge.Files.Route
import ClientForge.Proofs.Files.Tree
import Mathlib.Data.List.Induction
/-!
# Routes through file trees

`Walks` says step by step how names lead from one place to another and how many links may still be
followed then; the computed walk is this relation (`walkFrom_eq_ok_iff`).  Walks can be continued
(`Walks.append`), and a walk stays what it is in every tree with the same ways (`Walks.mono`).

On a straight route nothing turns round and there is no link.  It leads to its own names, through
directories only (`Walks.straight`), and only a file can be in its way.  What a route resolves to is
straight (`straight_of_resolve`).
-/

namespace ClientForge
namespace Files

namespace Route

theorem isEntryName_iff {name : String} :
    isEntryName name = true ↔ name ≠ "" ∧ name ≠ "." ∧ name ≠ ".." := by
  simp [isEntryName]

theorem location_concat (route : Route) (name : String) :
    location (route ++ [name]) = Location.enter route.location name := by
  unfold location
  rw [List.foldl_append]
  rfl

/-- Every name of a route stands for an entry. -/
def IsPlain (route : Route) : Prop :=
  ∀ name ∈ route, isEntryName name = true

theorem location_of_isPlain {route : Route} (h : route.IsPlain) : route.location = route := by
  induction route using List.reverseRecOn with
  | nil => rfl
  | append_singleton route name ih =>
      obtain ⟨hempty, hdot, hup⟩ := isEntryName_iff.mp (h name (by simp))
      rw [location_concat, ih fun other hother => h other (List.mem_append_left _ hother)]
      simp [Location.enter, hempty, hdot, hup]

end Route

namespace Tree

variable {tree : Tree} {links left : Nat} {here place : Location} {names : Route} {name : String}

/-! ## Walks -/

/-- Names lead from a place to another.  The numbers are of the links that may be followed from the
first place on and from the last. -/
inductive Walks (tree : Tree) : Nat → Location → Route → Nat → Location → Prop
  | done {links : Nat} {here : Location} : Walks tree links here [] links here
  | stay {links left : Nat} {here place : Location} {name : String} {names : Route}
      (inside : tree.find? here = some .directory) (silent : name = "" ∨ name = ".")
      (rest : Walks tree links here names left place) :
      Walks tree links here (name :: names) left place
  | up {links left : Nat} {here place : Location} {names : Route}
      (inside : tree.find? here = some .directory)
      (rest : Walks tree links here.dropLast names left place) :
      Walks tree links here (".." :: names) left place
  | enter {links left : Nat} {here place : Location} {name : String} {names : Route}
      (inside : tree.find? here = some .directory) (plain : Route.isEntryName name = true)
      (no_link : ∀ target, tree.find? (here ++ [name]) ≠ some (.link target))
      (rest : Walks tree links (here ++ [name]) names left place) :
      Walks tree links here (name :: names) left place
  | jump {links left : Nat} {here place : Location} {name : String} {names : Route}
      {target : Target} (inside : tree.find? here = some .directory)
      (plain : Route.isEntryName name = true)
      (is_link : tree.find? (here ++ [name]) = some (.link target))
      (rest : Walks tree links (target.start here) (target.names ++ names) left place) :
      Walks tree (links + 1) here (name :: names) left place

/-- What goes on at a link, if so many links may be followed. -/
def jumpFrom (tree : Tree) : Nat → Location → Route → Except Refusal Location
  | 0 => fun _ _ => .error .manyLinks
  | links + 1 => tree.walkFrom links

theorem walkFrom_eq_follow (tree : Tree) (links : Nat) :
    tree.walkFrom links = tree.follow (tree.jumpFrom links) := by
  cases links <;> rfl

section follow
variable {jump : Location → Route → Except Refusal Location}

theorem follow_of_silent (hdir : tree.find? here = some .directory)
    (hname : name = "" ∨ name = ".") :
    tree.follow jump here (name :: names) = tree.follow jump here names := by
  simp only [follow, hdir, if_pos hname]

theorem follow_of_up (hdir : tree.find? here = some .directory) :
    tree.follow jump here (".." :: names) = tree.follow jump here.dropLast names := by
  simp [follow, hdir]

theorem follow_of_link {target : Target} (hdir : tree.find? here = some .directory)
    (hname : Route.isEntryName name = true)
    (hlink : tree.find? (here ++ [name]) = some (.link target)) :
    tree.follow jump here (name :: names) = jump (target.start here) (target.names ++ names) := by
  obtain ⟨hempty, hdot, hup⟩ := Route.isEntryName_iff.mp hname
  simp only [follow, hdir, hempty, hdot, hup, or_self, if_false, hlink]

theorem follow_of_no_link (hdir : tree.find? here = some .directory)
    (hname : Route.isEntryName name = true)
    (hlink : ∀ target, tree.find? (here ++ [name]) ≠ some (.link target)) :
    tree.follow jump here (name :: names) = tree.follow jump (here ++ [name]) names := by
  obtain ⟨hempty, hdot, hup⟩ := Route.isEntryName_iff.mp hname
  simp only [follow, hdir, hempty, hdot, hup, or_self, if_false]

theorem follow_of_not_directory (jump : Location → Route → Except Refusal Location)
    (name : String) (names : Route) (hdir : tree.find? here ≠ some .directory) :
    tree.follow jump here (name :: names) = .error .missing ∧ tree.find? here = none ∨
    tree.follow jump here (name :: names) = .error .notDirectory ∧
      ∃ entry, tree.find? here = some entry := by
  cases hentry : tree.find? here with
  | none => exact Or.inl ⟨by simp only [follow, hentry], rfl⟩
  | some entry =>
      refine Or.inr ⟨?_, entry, rfl⟩
      cases entry with
      | directory => exact absurd hentry hdir
      | file number => simp only [follow, hentry]
      | link target => simp only [follow, hentry]

end follow

/-- A name is silent, leads up, or stands for an entry. -/
theorem name_cases (name : String) :
    (name = "" ∨ name = ".") ∨ name = ".." ∨ Route.isEntryName name = true := by
  rw [Route.isEntryName_iff]
  tauto

/-- Without a directory there is nowhere to go. -/
theorem directory_of_follow {jump : Location → Route → Except Refusal Location}
    (h : tree.follow jump here (name :: names) = .ok place) :
    tree.find? here = some .directory := by
  by_contra hdir
  rcases follow_of_not_directory jump name names hdir with
    ⟨herror, -⟩ | ⟨herror, -⟩
  · rw [herror] at h
    cases h
  · rw [herror] at h
    cases h

/-- What is followed is walked, if that is so for what goes on at links. -/
theorem exists_walks_of_follow {jump : Location → Route → Except Refusal Location}
    (hjump : ∀ start more, jump start more = .ok place →
      ∃ fewer left, links = fewer + 1 ∧ tree.Walks fewer start more left place)
    (h : tree.follow jump here names = .ok place) :
    ∃ left, tree.Walks links here names left place := by
  induction names generalizing here with
  | nil =>
      cases h
      exact ⟨links, .done⟩
  | cons name rest ih =>
      have hdir := directory_of_follow h
      rcases name_cases name with hsilent | rfl | hname
      · rw [follow_of_silent hdir hsilent] at h
        obtain ⟨left, hwalks⟩ := ih h
        exact ⟨left, .stay hdir hsilent hwalks⟩
      · rw [follow_of_up hdir] at h
        obtain ⟨left, hwalks⟩ := ih h
        exact ⟨left, .up hdir hwalks⟩
      · by_cases hlink : ∃ target, tree.find? (here ++ [name]) = some (.link target)
        · obtain ⟨target, hlink⟩ := hlink
          rw [follow_of_link hdir hname hlink] at h
          obtain ⟨fewer, left, rfl, hwalks⟩ := hjump _ _ h
          exact ⟨left, .jump hdir hname hlink hwalks⟩
        · have hnone := not_exists.mp hlink
          rw [follow_of_no_link hdir hname hnone] at h
          obtain ⟨left, hwalks⟩ := ih h
          exact ⟨left, .enter hdir hname hnone hwalks⟩

theorem exists_walks_of_walkFrom (h : tree.walkFrom links here names = .ok place) :
    ∃ left, tree.Walks links here names left place := by
  induction links generalizing here names with
  | zero => exact exists_walks_of_follow (fun _ _ herror => by cases herror) h
  | succ links ih =>
      refine exists_walks_of_follow (fun start more hmore => ?_) h
      obtain ⟨left, hwalks⟩ := ih hmore
      exact ⟨links, left, rfl, hwalks⟩

theorem Walks.walkFrom_eq (h : tree.Walks links here names left place) :
    tree.walkFrom links here names = .ok place := by
  induction h with
  | done =>
      rw [walkFrom_eq_follow]
      rfl
  | stay inside silent _ ih =>
      rw [walkFrom_eq_follow] at ih ⊢
      rw [follow_of_silent inside silent]
      exact ih
  | up inside _ ih =>
      rw [walkFrom_eq_follow] at ih ⊢
      rw [follow_of_up inside]
      exact ih
  | enter inside plain no_link _ ih =>
      rw [walkFrom_eq_follow] at ih ⊢
      rw [follow_of_no_link inside plain no_link]
      exact ih
  | jump inside plain is_link _ ih =>
      rw [walkFrom_eq_follow, follow_of_link inside plain is_link]
      exact ih

/-- The computed walk is the walk. -/
theorem walkFrom_eq_ok_iff : tree.walkFrom links here names = .ok place ↔
    ∃ left, tree.Walks links here names left place :=
  ⟨exists_walks_of_walkFrom, fun ⟨_, h⟩ => h.walkFrom_eq⟩

/-- Walks follow one another. -/
theorem Walks.append {more : Route} {last : Location} {rest : Nat}
    (h : tree.Walks links here names left place) (h' : tree.Walks left place more rest last) :
    tree.Walks links here (names ++ more) rest last := by
  induction h with
  | done => exact h'
  | stay inside silent _ ih => exact .stay inside silent (ih h')
  | up inside _ ih => exact .up inside (ih h')
  | enter inside plain no_link _ ih => exact .enter inside plain no_link (ih h')
  | jump inside plain is_link _ ih =>
      refine .jump inside plain is_link ?_
      exact List.append_assoc _ _ more ▸ ih h'

/-- A walk stays what it is in every tree with the same ways. -/
theorem Walks.mono {next : Tree} (hnext : tree.Keeps next)
    (h : tree.Walks links here names left place) : next.Walks links here names left place := by
  induction h with
  | done => exact .done
  | stay inside silent _ ih => exact .stay (hnext.directories _ inside) silent ih
  | up inside _ ih => exact .up (hnext.directories _ inside) ih
  | enter inside plain no_link _ ih =>
      refine .enter (hnext.directories _ inside) plain (fun target hlink => ?_) ih
      exact no_link target ((hnext.links _ target).mp hlink)
  | jump inside plain is_link _ ih =>
      exact .jump (hnext.directories _ inside) plain ((hnext.links _ _).mpr is_link) ih

/-- In a closed tree, a walk that ends where nothing is ends in a directory. -/
theorem Walks.exists_parent (hclosed : tree.Closed)
    (h : tree.Walks links here names left place) (hhere : tree.find? here = some .directory)
    (hplace : tree.find? place = none) :
    ∃ parent name, place = parent ++ [name] ∧ tree.find? parent = some .directory := by
  induction h with
  | done =>
      rw [hhere] at hplace
      cases hplace
  | stay _ _ _ ih => exact ih hhere hplace
  | @up _ _ here _ _ _ _ ih =>
      refine ih ?_ hplace
      rcases List.eq_nil_or_concat' here with rfl | ⟨init, name, rfl⟩
      · exact hhere
      · rw [List.dropLast_concat]
        exact hclosed init name _ hhere
  | @enter _ _ here _ name _ inside _ _ rest ih =>
      cases rest with
      | done => exact ⟨here, name, rfl, inside⟩
      | stay inside => exact ih inside hplace
      | up inside => exact ih inside hplace
      | enter inside => exact ih inside hplace
      | jump inside => exact ih inside hplace
  | @jump _ _ here _ _ _ target inside _ _ _ ih =>
      refine ih ?_ hplace
      unfold Target.start
      split
      · exact tree.find?_nil
      · exact inside

/-! ## Routes that lead to directories -/

theorem walk_eq_ok_iff {route : Route} : tree.walk route = .ok place ↔
    ∃ left, tree.Walks linkLimit [] route left place :=
  walkFrom_eq_ok_iff

theorem walk_mono {next : Tree} {route : Route} (hnext : tree.Keeps next)
    (h : tree.walk route = .ok place) : next.walk route = .ok place := by
  obtain ⟨left, hwalks⟩ := walk_eq_ok_iff.mp h
  exact walk_eq_ok_iff.mpr ⟨left, hwalks.mono hnext⟩

theorem directoryAt_eq_ok_iff {route : Route} : tree.directoryAt route = .ok place ↔
    tree.walk route = .ok place ∧ tree.find? place = some .directory := by
  unfold directoryAt
  cases tree.walk route with
  | error refusal => simp
  | ok found =>
      dsimp only
      constructor
      · intro h
        cases hentry : tree.find? found with
        | none =>
            rw [hentry] at h
            cases h
        | some entry =>
            rw [hentry] at h
            cases entry <;> cases h
            exact ⟨rfl, hentry⟩
      · rintro ⟨⟨⟩, hdir⟩
        rw [hdir]

theorem directoryAt_mono {next : Tree} {route : Route} (hnext : tree.Keeps next)
    (h : tree.directoryAt route = .ok place) : next.directoryAt route = .ok place := by
  obtain ⟨hwalk, hdir⟩ := directoryAt_eq_ok_iff.mp h
  exact directoryAt_eq_ok_iff.mpr ⟨walk_mono hnext hwalk, hnext.directories _ hdir⟩

theorem isDirectory_iff {route : Route} :
    tree.isDirectory route = true ↔ ∃ place, tree.directoryAt route = .ok place := by
  unfold isDirectory
  cases tree.directoryAt route with
  | error refusal => simp
  | ok found => simp

theorem isDirectory_nil (tree : Tree) : tree.isDirectory [] = true :=
  isDirectory_iff.mpr
    ⟨[], directoryAt_eq_ok_iff.mpr ⟨walk_eq_ok_iff.mpr ⟨_, .done⟩, tree.find?_nil⟩⟩

/-- One more name in a directory leads to its entry, unless that is a link. -/
theorem walk_concat {route : Route} (h : tree.directoryAt route = .ok place)
    (hname : Route.isEntryName name = true)
    (hlink : ∀ target, tree.find? (place ++ [name]) ≠ some (.link target)) :
    tree.walk (route ++ [name]) = .ok (place ++ [name]) := by
  obtain ⟨hwalk, hdir⟩ := directoryAt_eq_ok_iff.mp h
  obtain ⟨left, hwalks⟩ := walk_eq_ok_iff.mp hwalk
  exact walk_eq_ok_iff.mpr ⟨left, hwalks.append (.enter hdir hname hlink .done)⟩

/-! ## Straight routes -/

/-- Every name of a route stands for an entry, and none of them is a link. -/
structure Straight (tree : Tree) (route : Route) : Prop where
  plain : route.IsPlain
  no_link : ∀ stage, stage <+: route → ∀ target, tree.find? stage ≠ some (.link target)

theorem Straight.of_isPrefix {route stage : Route} (h : tree.Straight route)
    (hstage : stage <+: route) : tree.Straight stage :=
  ⟨fun name hname => h.plain name (hstage.subset hname),
    fun other hother => h.no_link other (hother.trans hstage)⟩

theorem Straight.mono {next : Tree} {route : Route} (hnext : tree.Keeps next)
    (h : tree.Straight route) : next.Straight route :=
  ⟨h.plain, fun stage hstage target hlink =>
    h.no_link stage hstage target ((hnext.links stage target).mp hlink)⟩

/-- From a place on a straight route, the rest of its names leads straight on through
directories. -/
theorem Walks.straight (h : tree.Walks links here names left place)
    (hstraight : tree.Straight (here ++ names)) :
    place = here ++ names ∧
      ∀ stage, here <+: stage → stage <+: here ++ names → stage ≠ here ++ names →
        tree.find? stage = some .directory := by
  induction names generalizing links here with
  | nil =>
      cases h
      refine ⟨(List.append_nil _).symm, fun stage hfrom hto hne => ?_⟩
      rw [List.append_nil] at hto hne
      exact absurd (hto.eq_of_length_le hfrom.length_le) hne
  | cons name rest ih =>
      have hsplit : here ++ name :: rest = (here ++ [name]) ++ rest := by simp
      have hname := hstraight.plain name (by simp)
      have hlink := hstraight.no_link (here ++ [name]) ⟨rest, hsplit.symm⟩
      obtain ⟨hempty, hdot, hup⟩ := Route.isEntryName_iff.mp hname
      cases h with
      | stay _ silent => exact absurd silent (not_or.mpr ⟨hempty, hdot⟩)
      | up => exact absurd rfl hup
      | jump _ _ is_link => exact absurd is_link (hlink _)
      | enter inside _ _ hrest =>
          obtain ⟨hplace, hdirs⟩ := ih hrest (hsplit ▸ hstraight)
          refine ⟨hplace.trans hsplit.symm, fun stage hfrom hto hne => ?_⟩
          by_cases hhere : stage = here
          · rw [hhere]
            exact inside
          · rw [hsplit] at hto hne
            refine hdirs stage ?_ hto hne
            -- beyond the first place the next name has been passed
            obtain ⟨more, rfl⟩ := hfrom
            obtain ⟨first, others, rfl⟩ := List.exists_cons_of_ne_nil
              (show more ≠ [] by rintro rfl; exact hhere (List.append_nil _))
            obtain ⟨tail, htail⟩ := hto
            rw [List.append_assoc, List.append_assoc] at htail
            have hfirst := (List.cons.inj (List.append_cancel_left htail)).1
            exact ⟨others, by rw [hfirst, List.append_assoc]; rfl⟩

/-- A straight route leads to its own names. -/
theorem Straight.eq_of_walk {route : Route} (h : tree.Straight route)
    (hwalk : tree.walk route = .ok place) : place = route := by
  obtain ⟨left, hwalks⟩ := walk_eq_ok_iff.mp hwalk
  exact (hwalks.straight h).1

/-- What a straight route to a directory passes are directories. -/
theorem Straight.directory_of_directoryAt {route stage : Route} (h : tree.Straight route)
    (hdir : tree.directoryAt route = .ok place) (hstage : stage <+: route) :
    tree.find? stage = some .directory := by
  obtain ⟨hwalk, hplace⟩ := directoryAt_eq_ok_iff.mp hdir
  obtain ⟨left, hwalks⟩ := walk_eq_ok_iff.mp hwalk
  obtain ⟨hroute, hdirs⟩ := hwalks.straight h
  by_cases heq : stage = route
  · rw [heq]
    rw [hroute] at hplace
    exact hplace
  · exact hdirs stage List.nil_prefix hstage heq

/-- Through directories a straight route can be walked. -/
theorem Straight.walk_eq {route : Route} (h : tree.Straight route)
    (hdirs : ∀ stage, stage <+: route → stage ≠ route → tree.find? stage = some .directory) :
    tree.walk route = .ok route := by
  induction route using List.reverseRecOn with
  | nil => exact walk_eq_ok_iff.mpr ⟨_, .done⟩
  | append_singleton init name ih =>
      have hprefix : init <+: init ++ [name] := List.prefix_append _ _
      have hinit := ih (h.of_isPrefix hprefix) fun stage hstage hne => by
        refine hdirs stage (hstage.trans hprefix) fun heq => ?_
        have hlength := hstage.length_le
        rw [heq, List.length_append, List.length_singleton] at hlength
        omega
      refine walk_concat (directoryAt_eq_ok_iff.mpr ⟨hinit, hdirs init hprefix (by simp)⟩)
        (h.plain name (by simp)) (h.no_link _ List.prefix_rfl)

/-- Only a file can be in the way of a straight route; otherwise something is missing. -/
theorem Straight.walkFrom_eq_error {refusal : Refusal} (h : tree.Straight (here ++ names))
    (herror : tree.walkFrom links here names = .error refusal) :
    refusal = .missing ∨
      ∃ stage number, stage <+: here ++ names ∧ stage ≠ here ++ names ∧
        tree.find? stage = some (.file number) := by
  rw [walkFrom_eq_follow] at herror
  induction names generalizing here with
  | nil => cases herror
  | cons name rest ih =>
      have hsplit : here ++ name :: rest = (here ++ [name]) ++ rest := by simp
      have hname := h.plain name (by simp)
      by_cases hdir : tree.find? here = some .directory
      · rw [follow_of_no_link hdir hname (h.no_link _ ⟨rest, hsplit.symm⟩)] at herror
        rw [hsplit]
        exact ih (hsplit ▸ h) herror
      · rcases follow_of_not_directory (tree.jumpFrom links) name rest hdir with
          ⟨hmissing, -⟩ | ⟨-, entry, hentry⟩
        · rw [hmissing] at herror
          cases herror
          exact Or.inl rfl
        · refine Or.inr ⟨here, ?_⟩
          cases entry with
          | file number => exact ⟨number, List.prefix_append _ _, by simp, hentry⟩
          | directory => exact absurd hentry hdir
          | link target => exact absurd hentry (h.no_link here (List.prefix_append _ _) target)

theorem Straight.directoryAt_eq_error {route : Route} {refusal : Refusal}
    (h : tree.Straight route) (herror : tree.directoryAt route = .error refusal) :
    refusal = .missing ∨
      ∃ stage number, stage <+: route ∧ tree.find? stage = some (.file number) := by
  unfold directoryAt at herror
  cases hwalk : tree.walk route with
  | error other =>
      rw [hwalk] at herror
      cases herror
      refine (Straight.walkFrom_eq_error (show tree.Straight ([] ++ route) from h) hwalk).imp_right ?_
      rintro ⟨stage, number, hstage, -, hfile⟩
      exact ⟨stage, number, hstage, hfile⟩
  | ok place =>
      obtain rfl := h.eq_of_walk hwalk
      rw [hwalk] at herror
      dsimp only at herror
      cases hentry : tree.find? place with
      | none =>
          rw [hentry] at herror
          cases herror
          exact Or.inl rfl
      | some entry =>
          rw [hentry] at herror
          cases entry with
          | directory => cases herror
          | file number => exact Or.inr ⟨place, number, List.prefix_rfl, hentry⟩
          | link target => exact absurd hentry (h.no_link place List.prefix_rfl target)

/-- In a closed tree a straight route leads to whatever is at its end. -/
theorem Straight.find?_of_leads {route : Route} (h : tree.Straight route) (hclosed : tree.Closed)
    (hleads : tree.leads route = false) : tree.find? route = none := by
  cases hentry : tree.find? route with
  | none => rfl
  | some entry =>
      have hwalk : tree.walk route = .ok route := by
        refine h.walk_eq ?_
        rintro stage ⟨more, rfl⟩ hne
        exact hclosed.directory_of_isPrefix (by rintro rfl; simp at hne) hentry
      unfold leads at hleads
      rw [hwalk] at hleads
      simp [hentry] at hleads

/-! ## Resolved routes -/

theorem straight_nil (tree : Tree) : tree.Straight [] := by
  refine ⟨nofun, fun stage hstage target => ?_⟩
  rw [List.prefix_nil.mp hstage, find?_nil]
  nofun

theorem Straight.concat (h : tree.Straight here) (hname : Route.isEntryName name = true)
    (hlink : ∀ target, tree.find? (here ++ [name]) ≠ some (.link target)) :
    tree.Straight (here ++ [name]) := by
  refine ⟨fun other hother => ?_, fun stage hstage target => ?_⟩
  · rcases List.mem_append.mp hother with hmem | hmem
    · exact h.plain other hmem
    · rw [List.mem_singleton.mp hmem]
      exact hname
  · rcases List.prefix_concat_iff.mp hstage with rfl | hstage
    · exact hlink target
    · exact h.no_link stage hstage target

/-- From a straight place names resolve to a straight place, if that is so for links. -/
theorem straight_of_resolveWith {passed : List Location}
    {jump : List Location → Location → Route → Except Route Location}
    (hjump : ∀ links start more place, tree.Straight start →
      jump links start more = .ok place → tree.Straight place)
    (hhere : tree.Straight here) (h : tree.resolveWith passed jump here names = .ok place) :
    tree.Straight place := by
  induction names generalizing here with
  | nil =>
      cases h
      exact hhere
  | cons name rest ih =>
      rw [resolveWith] at h
      split at h
      · exact ih hhere h
      · rename_i hsilent
        split at h
        · exact ih (hhere.of_isPrefix (List.dropLast_prefix here)) h
        · rename_i hup
          have hname : Route.isEntryName name = true :=
            ((name_cases name).resolve_left hsilent).resolve_left hup
          split at h
          · rename_i target hlink
            split at h
            · cases h
            · split at h
              · rename_i found hfound
                refine ih (hjump _ _ _ _ ?_ hfound) h
                unfold Target.start
                split
                · exact straight_nil tree
                · exact hhere
              · cases h
          · rename_i hlink
            exact ih (hhere.concat hname fun target htarget => hlink target htarget) h

theorem straight_of_resolveFrom {depth : Nat} {passed : List Location}
    (hhere : tree.Straight here)
    (h : tree.resolveFrom depth passed here names = .ok place) : tree.Straight place := by
  induction depth generalizing passed here names place with
  | zero => exact straight_of_resolveWith (fun _ _ _ _ _ herror => by cases herror) hhere h
  | succ depth ih =>
      exact straight_of_resolveWith (fun _ _ _ _ hstart hfound => ih hstart hfound) hhere h

/-- What a route resolves to has no link on it. -/
theorem straight_of_resolve {route : Route} (h : tree.resolve route = .ok place) :
    tree.Straight place :=
  straight_of_resolveFrom (straight_nil tree) h

/-- A route that resolves stands for what it resolves to. -/
theorem eq_of_locate? {route : Route} {target : Location} (hplace : tree.resolve route = .ok place)
    (h : tree.locate? route = some target) : target = place := by
  have hlocate : tree.locate route = place := by
    unfold locate
    rw [hplace]
  unfold locate? at h
  rw [hlocate] at h
  split at h
  · cases h
  · exact (Option.some.inj h).symm

end Tree
end Files
end ClientForge
