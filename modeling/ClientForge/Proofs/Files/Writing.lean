import ClientForge.Files.Writer
import ClientForge.Proofs.Files.Way
/-!
# Writing into a file tree

A content comes to the target of a route in one of three ways (`Stored`): a finished file takes the
place of what was there, a new file is opened, or a file that is there is written in place.  In all
of them the target holds the content, and nothing else changes but the other names of a file that is
written in place (`Stored.received`).  On a straight route with its way ready this is a delivery to
the tree before (`Stored.delivered`).

A job that may begin makes the way and then ends in one of four ways (`Wrote`, `ran_run`).  The
finished file is first made under another name, but it is never there afterwards
(`wrote_replaceFrom`).  Writing in place empties the target before the text is encoded
(`wrote_writeTarget`).
-/

namespace ClientForge
namespace Files

/-! ## Trees before and after -/

namespace Tree

variable {tree : Tree}

/-- Every file and every link is as it was; directories may have been made. -/
def SameFiles (before after : Tree) : Prop :=
  ∀ place, after.seen? place = before.seen? place ∨
    before.seen? place = none ∧ after.seen? place = some .directory

/-- Two locations are names of one file. -/
def SameFile (tree : Tree) (place other : Location) : Prop :=
  ∃ number, tree.find? place = some (.file number) ∧ tree.find? other = some (.file number)

/-- The file at a location has no other name. -/
def Alone (tree : Tree) (place : Location) : Prop :=
  ∀ other, other ≠ place → ¬ tree.SameFile place other

/-- A content has come to a target, and to the other names of the same file if that was written in
place.  Nothing else has changed. -/
structure Received (before : Tree) (inPlace : Bool) (target : Location) (octets : List UInt8)
    (after : Tree) : Prop where
  content : after.seen? target = some (.file octets)
  others : ∀ place, place ≠ target → after.seen? place = before.seen? place ∨
    inPlace = true ∧ before.SameFile target place ∧ after.seen? place = some (.file octets)

/-- A route leads to a content.  Nothing else is new, temporary files included, but directories
above, where there was nothing. -/
structure Delivered (before : Tree) (route : Route) (octets : List UInt8) (after : Tree) :
    Prop where
  content : after.read route = .ok octets
  others : ∀ place, place ≠ route → after.seen? place = before.seen? place ∨
    place <+: route.dropLast ∧ before.seen? place = none ∧ after.seen? place = some .directory

theorem SameFiles.refl (tree : Tree) : tree.SameFiles tree :=
  fun _ => Or.inl rfl

theorem Paved.seen?_eq {before after : Tree} {route : Route} (h : before.Paved route after)
    {place : Location} (hplace : after.find? place = before.find? place) :
    after.seen? place = before.seen? place := by
  refine seen?_congr hplace fun number _ => ?_
  unfold content
  rw [h.contents]

/-- New directories take no place of a file. -/
theorem Paved.sameFiles {before after : Tree} {route : Route} (h : before.Paved route after) :
    before.SameFiles after := by
  intro place
  rcases h.places place with hsame | ⟨hnone, hdir, -⟩
  · exact Or.inl (h.seen?_eq hsame)
  · exact Or.inr ⟨seen?_of_none hnone, seen?_of_directory hdir⟩

theorem find?_putFile {place : Location} (hplace : place ≠ []) (octets : List UInt8) :
    (tree.putFile place octets).find? place = some (.file tree.freshNumber) := by
  unfold putFile
  rw [find?_fill, find?_put hplace, if_pos rfl]

theorem content_putFile (place : Location) (octets : List UInt8) :
    (tree.putFile place octets).content tree.freshNumber = octets := by
  unfold putFile
  rw [content_fill, if_pos rfl]

/-- A file that is erased again leaves its content behind. -/
theorem erase_putFile {place : Location} (h : tree.find? place = none) (octets : List UInt8) :
    (tree.putFile place octets).erase place = tree.fill tree.freshNumber octets := by
  show ((tree.put place _).erase place).fill _ octets = _
  rw [erase_put h]

theorem drain_erase_putFile {place : Location} (h : tree.find? place = none)
    (octets : List UInt8) :
    ((tree.putFile place octets).erase place).drain tree.freshNumber = tree := by
  rw [erase_putFile h, drain_fill tree.freshNumber_not_mem_contents]

theorem fill_putFile (place : Location) (first second : List UInt8) :
    (tree.putFile place first).fill tree.freshNumber second = tree.putFile place second :=
  fill_fill _ _ _

/-- A file where there was neither a directory nor a link changes no way. -/
theorem keeps_putFile {place : Location} (hdir : tree.find? place ≠ some .directory)
    (hlink : ∀ target, tree.find? place ≠ some (.link target)) (octets : List UInt8) :
    tree.Keeps (tree.putFile place octets) :=
  (keeps_put hdir hlink fun _ h => by cases h).trans (keeps_fill _ _ _)

/-- A new file is no way either. -/
theorem keeps_of_putFile {place : Location} (h : tree.find? place = none) (octets : List UInt8) :
    (tree.putFile place octets).Keeps tree := by
  have hfind : ∀ other, (tree.putFile place octets).find? other =
      if other = place then some (.file tree.freshNumber) else tree.find? other :=
    fun other => find?_put (ne_nil_of_find?_eq_none h) _ other
  constructor
  · intro other hother
    rw [hfind] at hother
    split at hother
    · cases hother
    · exact hother
  · intro other target
    rw [hfind]
    split
    · rename_i heq
      rw [heq, h]
      exact iff_of_false nofun (fun h => by cases h)
    · rfl

theorem received_putFile {target : Location} (htarget : target ≠ []) (inPlace : Bool)
    (octets : List UInt8) : tree.Received inPlace target octets (tree.putFile target octets) := by
  constructor
  · rw [seen?_of_file (find?_putFile htarget octets), content_putFile]
  · intro place hplace
    left
    refine seen?_congr ?_ fun number hnumber => ?_
    · unfold putFile
      rw [find?_fill, find?_put htarget, if_neg hplace]
    · have hfresh : number ≠ tree.freshNumber :=
        fun heq => tree.find?_ne_freshNumber place (heq ▸ hnumber)
      unfold putFile
      rw [content_fill, if_neg hfresh, content_put]

theorem received_fill {target : Location} {number : Nat}
    (h : tree.find? target = some (.file number)) (octets : List UInt8) :
    tree.Received true target octets (tree.fill number octets) := by
  have hfilled : ∀ place, tree.find? place = some (.file number) →
      (tree.fill number octets).seen? place = some (.file octets) := by
    intro place hplace
    rw [seen?_of_file (by rw [find?_fill]; exact hplace), content_fill, if_pos rfl]
  refine ⟨hfilled target h, fun place _ => ?_⟩
  by_cases hplace : tree.find? place = some (.file number)
  · exact Or.inr ⟨rfl, ⟨number, h, hplace⟩, hfilled place hplace⟩
  · refine Or.inl (seen?_congr (find?_fill _ _ _) fun other hother => ?_)
    have hne : other ≠ number := fun heq => hplace (heq ▸ hother)
    rw [content_fill, if_neg hne]

theorem read_eq_ok {route : Route} {place : Location} {number : Nat}
    (hwalk : tree.walk route = .ok place) (hfile : tree.find? place = some (.file number)) :
    tree.read route = .ok (tree.content number) := by
  unfold read
  simp only [hwalk, hfile]

/-! ## Contents at the end of a route -/

/-- Where the content for a route comes to.  A file that takes the target's place stands at the last
name in the directory that the other names lead to, even if there was a link; a file that is written
in place is where all names lead. -/
def Arrives (tree : Tree) (atomic : Bool) (route : Route) (target : Location) : Prop :=
  if atomic then
    ∃ place name, tree.directoryAt route.dropLast = .ok place ∧ route.getLast? = some name ∧
      Route.isEntryName name = true ∧ target = place ++ [name]
  else tree.walk route = .ok target

/-- How a content comes to the target of a route. -/
inductive Stored (tree : Tree) (octets : List UInt8) : Bool → Route → Location → Tree → Prop
  | replaced {init : Route} {place : Location} {name : String}
      (parent : tree.directoryAt init = .ok place) (plain : Route.isEntryName name = true)
      (no_directory : tree.find? (place ++ [name]) ≠ some .directory) :
      Stored tree octets true (init ++ [name]) (place ++ [name])
        (tree.putFile (place ++ [name]) octets)
  | created {route : Route} {target : Location} (leads : tree.walk route = .ok target)
      (free : tree.find? target = none) :
      Stored tree octets false route target (tree.putFile target octets)
  | filled {route : Route} {target : Location} {number : Nat}
      (leads : tree.walk route = .ok target)
      (is_file : tree.find? target = some (.file number)) :
      Stored tree octets false route target (tree.fill number octets)

section Stored
variable {octets : List UInt8} {atomic : Bool} {route : Route} {target : Location} {after : Tree}

theorem Stored.arrives (h : tree.Stored octets atomic route target after) :
    tree.Arrives atomic route target := by
  cases h with
  | @replaced init place name parent plain no_directory =>
      refine ⟨place, name, ?_, List.getLast?_concat, plain, rfl⟩
      rw [List.dropLast_concat]
      exact parent
  | created leads _ => exact leads
  | filled leads _ => exact leads

theorem Stored.received (h : tree.Stored octets atomic route target after) :
    tree.Received (!atomic) target octets after := by
  cases h with
  | replaced => exact received_putFile (by simp) false octets
  | created _ free => exact received_putFile (ne_nil_of_find?_eq_none free) true octets
  | filled _ is_file => exact received_fill is_file octets

/-- Unless a link was replaced, the route leads to the content. -/
theorem Stored.read_eq (h : tree.Stored octets atomic route target after)
    (hlink : ∀ path, tree.find? target ≠ some (.link path)) : after.read route = .ok octets := by
  cases h with
  | @replaced init place name parent plain no_directory =>
      have hkeeps := keeps_putFile no_directory hlink octets
      have hfile : (tree.putFile (place ++ [name]) octets).find? (place ++ [name]) = _ :=
        find?_putFile (by simp) octets
      have hwalk := walk_concat (directoryAt_mono hkeeps parent) plain (by rw [hfile]; nofun)
      rw [read_eq_ok hwalk hfile, content_putFile]
  | created leads free =>
      have hkeeps : tree.Keeps (tree.putFile target octets) :=
        keeps_putFile (by rw [free]; nofun) hlink octets
      have hfile : (tree.putFile target octets).find? target = _ :=
        find?_putFile (ne_nil_of_find?_eq_none free) octets
      rw [read_eq_ok (walk_mono hkeeps leads) hfile, content_putFile]
  | @filled route target number leads is_file =>
      have hwalk := walk_mono (keeps_fill tree number octets) leads
      rw [read_eq_ok hwalk is_file, content_fill, if_pos rfl]

theorem Stored.closed (h : tree.Stored octets atomic route target after)
    (hclosed : tree.Closed) : after.Closed := by
  cases h with
  | replaced parent plain no_directory =>
      exact hclosed.put (directoryAt_eq_ok_iff.mp parent).2 (Or.inl no_directory)
  | created leads free =>
      obtain ⟨left, hwalks⟩ := walk_eq_ok_iff.mp leads
      obtain ⟨parent, name, rfl, hparent⟩ :=
        hwalks.exists_parent hclosed tree.find?_nil free
      exact hclosed.put hparent (Or.inl (by rw [free]; nofun))
  | filled => exact hclosed

/-- On a straight route the content comes to the end of the route. -/
theorem Stored.target_eq (h : tree.Stored octets atomic route target after)
    (hstraight : tree.Straight route) : target = route := by
  cases h with
  | replaced parent _ _ =>
      have hinit := hstraight.of_isPrefix (List.prefix_append _ _)
      rw [hinit.eq_of_walk (directoryAt_eq_ok_iff.mp parent).1]
  | created leads _ => exact hstraight.eq_of_walk leads
  | filled leads _ => exact hstraight.eq_of_walk leads

/-- A content at the end of a straight route, the way to it being ready, is a delivery to the tree
before. -/
theorem Stored.delivered {before : Tree} (h : tree.Stored octets atomic route target after)
    (hpaved : before.Paved route.dropLast tree) (hstraight : before.Straight route)
    (halone : atomic = true ∨ before.Alone route) : before.Delivered route octets after := by
  have hready := hstraight.mono hpaved.keeps
  obtain rfl := h.target_eq hready
  refine ⟨h.read_eq (hready.no_link _ List.prefix_rfl), fun place hplace => ?_⟩
  rcases h.received.others place hplace with hsame | ⟨hinPlace, ⟨number, hfile, hother⟩, -⟩
  · rw [hsame]
    have hway := hstraight.of_isPrefix (List.dropLast_prefix target)
    rcases hpaved.isPrefix_of_straight hway place with hfind | ⟨hnone, hdir, habove⟩
    · exact Or.inl (hpaved.seen?_eq hfind)
    · exact Or.inr ⟨habove, seen?_of_none hnone, seen?_of_directory hdir⟩
  · -- another name of the file that was written in place
    rcases halone with rfl | halone
    · cases hinPlace
    · exact absurd ⟨number, hpaved.find?_file.mp hfile, hpaved.find?_file.mp hother⟩
        (halone place hplace)

end Stored

end Tree

/-! ## Jobs -/

namespace Job

/-- What becomes of a tree in which the way is ready. -/
inductive Wrote (ready : Tree) (atomic : Bool) (job : Job) : Tree × Except WriteFault Unit → Prop
  | refused (fault : Fault)
      (why : ready.Straight job.route → ready.isDirectory job.route.dropLast = true →
        ready.find? job.route = some .directory) :
      Wrote ready atomic job (ready, .error (.system fault))
  | unencodable {fault : Text.EncodeFault} (content : job.content.encode = .error fault)
      (apart : atomic = true) : Wrote ready atomic job (ready, .error (.encoding fault))
  | emptied {fault : Text.EncodeFault} {target : Location} {after : Tree}
      (content : job.content.encode = .error fault) (in_place : atomic = false)
      (stored : ready.Stored [] atomic job.route target after) :
      Wrote ready atomic job (after, .error (.encoding fault))
  | done {octets : List UInt8} {target : Location} {after : Tree}
      (content : job.content.encode = .ok octets)
      (stored : ready.Stored octets atomic job.route target after) :
      Wrote ready atomic job (after, .ok ())

section moveTo_concat
variable {tree : Tree} {init : Route}

theorem moveTo_of_error {refusal : Refusal} (h : tree.directoryAt init = .error refusal)
    (source : Location) (entry : Entry) (name : String) :
    tree.moveTo source entry (init ++ [name]) = .error refusal := by
  simp only [Tree.moveTo, List.getLast?_concat, List.dropLast_concat, h]

theorem moveTo_of_ok {place : Location} (h : tree.directoryAt init = .ok place)
    (source : Location) (entry : Entry) (name : String) :
    tree.moveTo source entry (init ++ [name]) =
      if !Route.isEntryName name then .error .busy
      else if tree.find? (place ++ [name]) = some .directory then .error .isDirectory
      else .ok ((tree.erase source).put (place ++ [name]) entry) := by
  simp only [Tree.moveTo, List.getLast?_concat, List.dropLast_concat, h]

end moveTo_concat

/-- On a straight route a file cannot take the place of a directory only. -/
theorem find?_of_moveTo_eq_error {tree : Tree} {source : Location} {entry : Entry} {route : Route}
    {refusal : Refusal} (hstraight : tree.Straight route)
    (hway : tree.isDirectory route.dropLast = true)
    (h : tree.moveTo source entry route = .error refusal) :
    tree.find? route = some .directory := by
  rcases List.eq_nil_or_concat' route with rfl | ⟨init, name, rfl⟩
  · exact tree.find?_nil
  rw [List.dropLast_concat] at hway
  obtain ⟨place, hplace⟩ := Tree.isDirectory_iff.mp hway
  have hinit := hstraight.of_isPrefix (List.prefix_append _ _)
  obtain rfl := hinit.eq_of_walk (Tree.directoryAt_eq_ok_iff.mp hplace).1
  by_contra hdir
  rw [moveTo_of_ok hplace] at h
  simp [hstraight.plain name (by simp), hdir] at h

/-- A file that takes a place takes it in a directory, and from no directory. -/
theorem exists_of_moveTo_eq_ok {tree next : Tree} {source : Location} {entry : Entry}
    {route : Route} (h : tree.moveTo source entry route = .ok next) :
    ∃ init place name, route = init ++ [name] ∧ tree.directoryAt init = .ok place ∧
      Route.isEntryName name = true ∧ tree.find? (place ++ [name]) ≠ some .directory ∧
      next = (tree.erase source).put (place ++ [name]) entry := by
  rcases List.eq_nil_or_concat' route with rfl | ⟨init, name, rfl⟩
  · cases h
  cases hinit : tree.directoryAt init with
  | error refusal =>
      rw [moveTo_of_error hinit] at h
      cases h
  | ok place =>
      rw [moveTo_of_ok hinit] at h
      split at h
      · cases h
      · rename_i hname
        split at h
        · cases h
        · rename_i hdir
          cases h
          exact ⟨init, place, name, rfl, hinit, by simpa using hname, hdir, rfl⟩

/-- The finished file takes the target's place or is removed; it stays nowhere else. -/
theorem wrote_replaceFrom {ready : Tree} {beside : Location} (hfree : ready.find? beside = none)
    (job : Job) : Wrote ready true job (job.replaceFrom ready beside) := by
  unfold replaceFrom
  cases hcontent : job.content.encode with
  | error fault =>
      dsimp only
      rw [Tree.drain_erase_putFile hfree]
      exact .unencodable hcontent rfl
  | ok octets =>
      dsimp only
      rw [Tree.fill_putFile]
      have hkeeps : ready.Keeps (ready.putFile beside octets) :=
        Tree.keeps_putFile (by rw [hfree]; nofun) (by rw [hfree]; nofun) octets
      have hback := Tree.keeps_of_putFile hfree octets
      cases hmove : (ready.putFile beside octets).moveTo beside (.file ready.freshNumber)
          job.route with
      | error refusal =>
          dsimp only
          rw [Tree.drain_erase_putFile hfree]
          refine .refused _ fun hstraight hway => hback.directories _ ?_
          obtain ⟨parent, hway⟩ := Tree.isDirectory_iff.mp hway
          exact find?_of_moveTo_eq_error (hstraight.mono hkeeps)
            (Tree.isDirectory_iff.mpr ⟨parent, Tree.directoryAt_mono hkeeps hway⟩) hmove
      | ok next =>
          obtain ⟨init, place, name, hroute, hinit, hname, hdir, hnext⟩ :=
            exists_of_moveTo_eq_ok hmove
          have hstored : ready.Stored octets true (init ++ [name]) (place ++ [name])
              (ready.putFile (place ++ [name]) octets) :=
            .replaced (Tree.directoryAt_mono hback hinit) hname
              (fun h => hdir (hkeeps.directories _ h))
          rw [Tree.erase_putFile hfree] at hnext
          rw [hnext]
          exact .done hcontent (hroute ▸ hstored)

theorem wrote_replaceTarget (ready : Tree) (job : Job) :
    Wrote ready true job (job.replaceTarget ready) := by
  unfold replaceTarget
  cases hparent : ready.directoryAt (Route.location job.route.dropLast) with
  | error refusal =>
      simp only [hparent]
      refine .refused _ fun hstraight hway => ?_
      -- a straight route is the same as a text, so the directory that is there is found
      have hinit := hstraight.of_isPrefix (List.dropLast_prefix job.route)
      obtain ⟨place, hplace⟩ := Tree.isDirectory_iff.mp hway
      rw [Route.location_of_isPlain hinit.plain, hplace] at hparent
      cases hparent
  | ok place =>
      simp only [hparent]
      exact wrote_replaceFrom (ready.find?_freshBeside place _) job

/-- On a straight route with a way to its end only a directory cannot be opened. -/
theorem find?_of_openFile_eq_error {tree : Tree} {route : Route} {refusal : Refusal}
    (hstraight : tree.Straight route) (hway : tree.isDirectory route.dropLast = true)
    (h : tree.openFile route = .error refusal) : tree.find? route = some .directory := by
  have hwalk : tree.walk route = .ok route := by
    obtain ⟨place, hplace⟩ := Tree.isDirectory_iff.mp hway
    refine hstraight.walk_eq fun stage hstage hne => ?_
    refine (hstraight.of_isPrefix (List.dropLast_prefix route)).directory_of_directoryAt hplace ?_
    rcases List.eq_nil_or_concat' route with rfl | ⟨init, name, rfl⟩
    · exact absurd (List.prefix_nil.mp hstage) hne
    · rw [List.dropLast_concat]
      exact (List.prefix_concat_iff.mp hstage).resolve_left hne
  unfold Tree.openFile at h
  simp only [hwalk] at h
  cases hentry : tree.find? route with
  | none =>
      rw [hentry] at h
      cases h
  | some entry =>
      rw [hentry] at h
      cases entry with
      | file number => cases h
      | directory => rfl
      | link target => exact absurd hentry (hstraight.no_link _ List.prefix_rfl target)

/-- What is opened is empty, and what is written then is its content. -/
theorem stored_of_openFile {tree opened : Tree} {route : Route} {number : Nat}
    (h : tree.openFile route = .ok (opened, number)) :
    ∃ target, tree.Stored [] false route target opened ∧
      ∀ octets, tree.Stored octets false route target (opened.fill number octets) := by
  unfold Tree.openFile at h
  cases hwalk : tree.walk route with
  | error refusal =>
      rw [hwalk] at h
      cases h
  | ok target =>
      rw [hwalk] at h
      dsimp only at h
      refine ⟨target, ?_⟩
      cases hentry : tree.find? target with
      | none =>
          rw [hentry] at h
          cases h
          refine ⟨.created hwalk hentry, fun octets => ?_⟩
          rw [Tree.fill_putFile]
          exact .created hwalk hentry
      | some entry =>
          rw [hentry] at h
          cases entry with
          | directory => cases h
          | link path => cases h
          | file other =>
              cases h
              refine ⟨.filled hwalk hentry, fun octets => ?_⟩
              rw [Tree.fill_fill]
              exact .filled hwalk hentry

theorem wrote_writeTarget (ready : Tree) (job : Job) :
    Wrote ready false job (job.writeTarget ready) := by
  unfold writeTarget
  cases hopen : ready.openFile job.route with
  | error refusal =>
      exact .refused _ fun hstraight hway => find?_of_openFile_eq_error hstraight hway hopen
  | ok result =>
      obtain ⟨opened, number⟩ := result
      obtain ⟨target, hempty, hfull⟩ := stored_of_openFile hopen
      dsimp only
      cases hcontent : job.content.encode with
      | error fault => exact .emptied hcontent rfl hempty
      | ok octets => exact .done hcontent (hfull octets)

/-- What a job does: it is not permitted and the tree is not touched; the way cannot be made; or the
way is ready. -/
inductive Ran (python : PythonCheck) (config : OutputConfig) (tree : Tree) (job : Job) :
    Tree × Except WriteFault Unit → Prop
  | forbidden {fault : WriteFault} (denied : permit python config tree job = .error fault) :
      Ran python config tree job (tree, .error fault)
  | blocked {ready : Tree} (fault : Fault) (readied : tree.Readied job.route.dropLast ready)
      (why : tree.Straight job.route → tree.IsBlocked job.route.dropLast) :
      Ran python config tree job (ready, .error (.system fault))
  | wrote {ready : Tree} {out : Tree × Except WriteFault Unit}
      (permitted : permit python config tree job = .ok ())
      (readied : tree.Readied job.route.dropLast ready)
      (way : ready.isDirectory job.route.dropLast = true)
      (written : Wrote ready config.atomicWrite job out) : Ran python config tree job out

theorem ran_run (python : PythonCheck) (config : OutputConfig) (tree : Tree) (job : Job) :
    Ran python config tree job (job.run python config tree) := by
  unfold run
  cases hpermit : permit python config tree job with
  | error fault => exact .forbidden hpermit
  | ok _ =>
      obtain ⟨hready, hway⟩ := Tree.readied_makeWay tree job.route
      rcases hmade : tree.makeWay job.route with ⟨ready, outcome⟩
      rw [hmade] at hready hway
      cases outcome with
      | error fault =>
          have herror : (tree.makeWay job.route).2 = .error fault := by rw [hmade]
          exact .blocked fault hready fun hstraight => hstraight.makeWay_eq_error herror
      | ok _ =>
          refine .wrote hpermit hready (hway rfl) ?_
          cases hatomic : config.atomicWrite with
          | true => exact wrote_replaceTarget ready job
          | false => exact wrote_writeTarget ready job

/-- Where targets are protected, a job may begin only if its route leads nowhere yet. -/
theorem leads_of_permit {python : PythonCheck} {config : OutputConfig} {tree : Tree} {job : Job}
    (hpermit : permit python config tree job = .ok ()) (hmode : config.mode = .error) :
    tree.leads job.route = false := by
  unfold permit at hpermit
  split at hpermit
  · cases hpermit
  · rename_i hfree
    simpa [hmode] using hfree

/-- What is not permitted is found out before anything is opened. -/
theorem permit_ne {python : PythonCheck} {config : OutputConfig} {tree : Tree} {job : Job}
    {fault : WriteFault} (h : permit python config tree job = .error fault) :
    ∀ encoding, fault ≠ .encoding encoding := by
  rintro encoding rfl
  unfold permit at h
  split at h
  · cases h
  · split at h
    · unfold check at h
      split at h
      · cases h
      · cases hpython : python job.content <;> rw [hpython] at h <;> cases h
      · rename_i language _ _
        cases hcheck : Check.check language job.content.replaced <;> rw [hcheck] at h <;> cases h
    · cases h

end Job
end Files
end ClientForge
