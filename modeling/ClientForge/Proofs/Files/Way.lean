import ClientForge.Proofs.Files.Route
import Mathlib.Data.List.Nodup
/-!
# Directories on the way

Making the way along a route adds directories where there was nothing, at places that the route
passes, and changes nothing else (`Paved`, `readied_makeWay`).  If it ends well, the way leads to a
directory.  On a straight route it stops only at a file (`Straight.makeWay_eq_error`).

The hidden place for an unfinished file is free (`find?_freshBeside`).
-/

namespace ClientForge
namespace Files
namespace Tree

variable {tree : Tree} {route : Route}

/-! ## Making the way -/

/-- Directories were added where there was nothing, at places that parts of the route lead to, and
that is all. -/
structure Paved (before : Tree) (route : Route) (after : Tree) : Prop where
  contents : after.contents = before.contents
  places : ∀ place, after.find? place = before.find? place ∨
    before.find? place = none ∧ after.find? place = some .directory ∧
      ∃ stage, stage <+: route ∧ after.walk stage = .ok place

theorem Paved.refl (tree : Tree) (route : Route) : tree.Paved route tree :=
  ⟨rfl, fun _ => Or.inl rfl⟩

theorem Paved.keeps {before after : Tree} (h : before.Paved route after) :
    before.Keeps after := by
  constructor
  · intro place hdir
    rcases h.places place with hsame | ⟨-, hnew, -⟩
    · rw [hsame]
      exact hdir
    · exact hnew
  · intro place target
    rcases h.places place with hsame | ⟨hnone, hnew, -⟩
    · rw [hsame]
    · rw [hnone, hnew]
      exact iff_of_false nofun nofun

theorem Paved.trans {before between after : Tree} (h : before.Paved route between)
    (h' : between.Paved route after) : before.Paved route after := by
  refine ⟨h'.contents.trans h.contents, fun place => ?_⟩
  rcases h'.places place with hsame | ⟨hnone, hdir, hstage⟩
  · rcases h.places place with hsame' | ⟨hnone, hdir, stage, hstage, hwalk⟩
    · exact Or.inl (hsame.trans hsame')
    · exact Or.inr ⟨hnone, hsame.trans hdir, stage, hstage, walk_mono h'.keeps hwalk⟩
  · rcases h.places place with hsame' | ⟨-, hdir', -⟩
    · exact Or.inr ⟨hsame' ▸ hnone, hdir, hstage⟩
    · rw [hdir'] at hnone
      cases hnone

/-- More of the route may follow. -/
theorem Paved.of_isPrefix {before after : Tree} {stage : Route} (h : before.Paved stage after)
    (hstage : stage <+: route) : before.Paved route after := by
  refine ⟨h.contents, fun place => (h.places place).imp_right ?_⟩
  rintro ⟨hnone, hdir, other, hother, hwalk⟩
  exact ⟨hnone, hdir, other, hother.trans hstage, hwalk⟩

/-- Files stay where they are and none is added. -/
theorem Paved.find?_file {before after : Tree} (h : before.Paved route after)
    {place : Location} {number : Nat} :
    after.find? place = some (.file number) ↔ before.find? place = some (.file number) := by
  rcases h.places place with hsame | ⟨hnone, hdir, -⟩
  · rw [hsame]
  · rw [hnone, hdir]
    exact iff_of_false nofun nofun

/-- The directories of a route have been seen to. -/
structure Readied (tree : Tree) (route : Route) (ready : Tree) : Prop where
  paved : tree.Paved route ready
  closed : tree.Closed → ready.Closed

theorem Readied.refl (tree : Tree) (route : Route) : tree.Readied route tree :=
  ⟨.refl tree route, id⟩

theorem Readied.trans {between ready : Tree} (h : tree.Readied route between)
    (h' : between.Readied route ready) : tree.Readied route ready :=
  ⟨h.paved.trans h'.paved, fun hclosed => h'.closed (h.closed hclosed)⟩

section makeDirectory_concat
variable {init : Route}

theorem makeDirectory_of_error {refusal : Refusal} (h : tree.directoryAt init = .error refusal)
    (name : String) : tree.makeDirectory (init ++ [name]) = .error refusal := by
  simp only [makeDirectory, List.getLast?_concat, List.dropLast_concat, h]

theorem makeDirectory_of_ok {place : Location} (h : tree.directoryAt init = .ok place)
    (name : String) : tree.makeDirectory (init ++ [name]) =
      if Route.isEntryName name && (tree.find? (place ++ [name])).isNone then
        .ok (tree.put (place ++ [name]) .directory)
      else .error .fileExists := by
  simp only [makeDirectory, List.getLast?_concat, List.dropLast_concat, h]

end makeDirectory_concat

/-- A directory is made where there was nothing, in a directory. -/
theorem readied_makeDirectory {next : Tree} (h : tree.makeDirectory route = .ok next) :
    tree.Readied route next ∧ next.isDirectory route = true := by
  rcases List.eq_nil_or_concat' route with rfl | ⟨init, name, rfl⟩
  · cases h
  cases hinit : tree.directoryAt init with
  | error refusal =>
      rw [makeDirectory_of_error hinit] at h
      cases h
  | ok place =>
      rw [makeDirectory_of_ok hinit] at h
      split at h
      · rename_i hfree
        cases h
        obtain ⟨hname, hnone⟩ := Bool.and_eq_true_iff.mp hfree
        rw [Option.isNone_iff_eq_none] at hnone
        have hplace : tree.find? place = some .directory := (directoryAt_eq_ok_iff.mp hinit).2
        have hkeeps : tree.Keeps (tree.put (place ++ [name]) .directory) :=
          keeps_put (by rw [hnone]; nofun) (by rw [hnone]; nofun) nofun
        have hnew : (tree.put (place ++ [name]) .directory).find? (place ++ [name]) =
            some .directory := by
          rw [find?_put (by simp), if_pos rfl]
        have hwalk := walk_concat (directoryAt_mono hkeeps hinit) hname
          (by rw [hnew]; nofun)
        refine ⟨⟨⟨rfl, fun other => ?_⟩, ?_⟩, ?_⟩
        · by_cases hother : other = place ++ [name]
          · rw [hother]
            exact Or.inr ⟨hnone, hnew, _, List.prefix_rfl, hwalk⟩
          · rw [find?_put (by simp), if_neg hother]
            exact Or.inl rfl
        · exact fun hclosed => hclosed.put hplace (Or.inr rfl)
        · exact isDirectory_iff.mpr ⟨_, directoryAt_eq_ok_iff.mpr ⟨hwalk, hnew⟩⟩
      · cases h

theorem acceptDirectory_eq_ok_iff {refusal : Refusal} :
    tree.acceptDirectory route refusal = .ok () ↔ tree.isDirectory route = true := by
  unfold acceptDirectory
  split <;> simp_all

theorem readied_haveDirectory (tree : Tree) (route : Route) :
    tree.Readied route (tree.haveDirectory route).1 ∧
      ((tree.haveDirectory route).2 = .ok () →
        (tree.haveDirectory route).1.isDirectory route = true) := by
  unfold haveDirectory
  cases hmake : tree.makeDirectory route with
  | ok next =>
      obtain ⟨hready, hdir⟩ := readied_makeDirectory hmake
      exact ⟨hready, fun _ => hdir⟩
  | error refusal => exact ⟨.refl tree route, acceptDirectory_eq_ok_iff.mp⟩

section haveDirectories_cons
variable {name : String} {up : List String}

theorem haveDirectories_of_made {next : Tree}
    (h : tree.makeDirectory (name :: up).reverse = .ok next) :
    tree.haveDirectories (name :: up) = (next, .ok ()) := by
  simp only [haveDirectories, h]

theorem haveDirectories_of_missing (h : tree.makeDirectory (name :: up).reverse = .error .missing) :
    (∃ fault, (tree.haveDirectories up).2 = .error fault ∧
      tree.haveDirectories (name :: up) = ((tree.haveDirectories up).1, .error fault)) ∨
    (tree.haveDirectories up).2 = .ok () ∧
      tree.haveDirectories (name :: up) =
        (tree.haveDirectories up).1.haveDirectory (name :: up).reverse := by
  rcases hup : tree.haveDirectories up with ⟨made, fault | _⟩
  · exact Or.inl ⟨fault, rfl, by simp only [haveDirectories, h, hup]⟩
  · exact Or.inr ⟨rfl, by simp only [haveDirectories, h, hup]⟩

theorem haveDirectories_of_refused {refusal : Refusal}
    (h : tree.makeDirectory (name :: up).reverse = .error refusal) (hother : refusal ≠ .missing) :
    tree.haveDirectories (name :: up) =
      (tree, tree.acceptDirectory (name :: up).reverse refusal) := by
  cases refusal with
  | missing => exact absurd rfl hother
  | fileExists => simp only [haveDirectories, h]
  | notDirectory => simp only [haveDirectories, h]
  | isDirectory => simp only [haveDirectories, h]
  | busy => simp only [haveDirectories, h]
  | manyLinks => simp only [haveDirectories, h]

end haveDirectories_cons

theorem readied_haveDirectories (tree : Tree) (names : List String) :
    tree.Readied names.reverse (tree.haveDirectories names).1 ∧
      ((tree.haveDirectories names).2 = .ok () →
        (tree.haveDirectories names).1.isDirectory names.reverse = true) := by
  induction names with
  | nil => exact ⟨.refl tree [], fun _ => tree.isDirectory_nil⟩
  | cons name up ih =>
      obtain ⟨hready, -⟩ := ih
      have hup : up.reverse <+: (name :: up).reverse := by
        rw [List.reverse_cons]
        exact List.prefix_append _ _
      have hready' : tree.Readied (name :: up).reverse (tree.haveDirectories up).1 :=
        ⟨hready.paved.of_isPrefix hup, hready.closed⟩
      cases hmake : tree.makeDirectory (name :: up).reverse with
      | ok next =>
          obtain ⟨hnext, hdir⟩ := readied_makeDirectory hmake
          rw [haveDirectories_of_made hmake]
          exact ⟨hnext, fun _ => hdir⟩
      | error refusal =>
          by_cases hmissing : refusal = .missing
          · subst hmissing
            rcases haveDirectories_of_missing hmake with ⟨fault, -, heq⟩ | ⟨-, heq⟩
            · rw [heq]
              exact ⟨hready', nofun⟩
            · rw [heq]
              obtain ⟨hlast, hdir⟩ := readied_haveDirectory (tree.haveDirectories up).1
                (name :: up).reverse
              exact ⟨hready'.trans hlast, hdir⟩
          · rw [haveDirectories_of_refused hmake hmissing]
            exact ⟨.refl tree _, acceptDirectory_eq_ok_iff.mp⟩

theorem reverse_reverse_tail (route : Route) : route.reverse.tail.reverse = route.dropLast := by
  rw [List.tail_reverse, List.reverse_reverse]

/-- The way is made as far as nothing is against it. -/
theorem readied_makeWay (tree : Tree) (route : Route) :
    tree.Readied route.dropLast (tree.makeWay route).1 ∧
      ((tree.makeWay route).2 = .ok () →
        (tree.makeWay route).1.isDirectory route.dropLast = true) := by
  have h := readied_haveDirectories tree route.reverse.tail
  rw [reverse_reverse_tail] at h
  exact h

/-! ## Files on straight routes -/

/-- A file stands at a place on the route. -/
def IsBlocked (tree : Tree) (route : Route) : Prop :=
  ∃ stage number, stage <+: route ∧ tree.find? stage = some (.file number)

theorem IsBlocked.of_isPrefix {stage : Route} (h : tree.IsBlocked stage)
    (hstage : stage <+: route) : tree.IsBlocked route := by
  obtain ⟨other, number, hother, hfile⟩ := h
  exact ⟨other, number, hother.trans hstage, hfile⟩

theorem Paved.isBlocked {before after : Tree} {other : Route} (h : before.Paved other after)
    (hblocked : after.IsBlocked route) : before.IsBlocked route := by
  obtain ⟨stage, number, hstage, hfile⟩ := hblocked
  exact ⟨stage, number, hstage, h.find?_file.mp hfile⟩

/-- On a straight route a directory cannot be made because the one above is missing, because it is
there, or because a file is in the way. -/
theorem Straight.makeDirectory_eq_error {refusal : Refusal} (h : tree.Straight route)
    (herror : tree.makeDirectory route = .error refusal) :
    refusal = .missing ∧ tree.directoryAt route.dropLast = .error .missing ∨
      tree.isDirectory route = true ∨ tree.IsBlocked route := by
  rcases List.eq_nil_or_concat' route with rfl | ⟨init, name, rfl⟩
  · exact Or.inr (Or.inl tree.isDirectory_nil)
  have hinit : tree.Straight init := h.of_isPrefix (List.prefix_append _ _)
  rw [List.dropLast_concat]
  cases hparent : tree.directoryAt init with
  | error other =>
      rw [makeDirectory_of_error hparent] at herror
      cases herror
      rcases hinit.directoryAt_eq_error hparent with rfl | ⟨stage, number, hstage, hfile⟩
      · exact Or.inl ⟨rfl, rfl⟩
      · exact Or.inr (Or.inr
          ⟨stage, number, hstage.trans (List.prefix_append _ _), hfile⟩)
  | ok place =>
      have hplace := hinit.eq_of_walk (directoryAt_eq_ok_iff.mp hparent).1
      subst hplace
      right
      cases hentry : tree.find? (place ++ [name]) with
      | none =>
          rw [makeDirectory_of_ok hparent] at herror
          simp [hentry, h.plain name (by simp)] at herror
      | some entry =>
          cases entry with
          | file number => exact Or.inr ⟨_, number, List.prefix_rfl, hentry⟩
          | link target => exact absurd hentry (h.no_link _ List.prefix_rfl target)
          | directory =>
              have hwalk := walk_concat hparent (h.plain name (by simp)) (by rw [hentry]; nofun)
              exact Or.inl (isDirectory_iff.mpr ⟨_, directoryAt_eq_ok_iff.mpr ⟨hwalk, hentry⟩⟩)

theorem Straight.haveDirectory_eq_error {fault : Fault} (h : tree.Straight route)
    (hparent : tree.isDirectory route.dropLast = true)
    (herror : (tree.haveDirectory route).2 = .error fault) : tree.IsBlocked route := by
  unfold haveDirectory at herror
  cases hmake : tree.makeDirectory route with
  | ok next =>
      rw [hmake] at herror
      cases herror
  | error refusal =>
      rw [hmake] at herror
      rcases h.makeDirectory_eq_error hmake with ⟨-, hmissing⟩ | hdir | hblocked
      · obtain ⟨place, hplace⟩ := isDirectory_iff.mp hparent
        rw [hplace] at hmissing
        cases hmissing
      · rw [show (tree, tree.acceptDirectory route refusal).2 = .ok () from
          acceptDirectory_eq_ok_iff.mpr hdir] at herror
        cases herror
      · exact hblocked

theorem Straight.haveDirectories_eq_error {names : List String} {fault : Fault}
    (h : tree.Straight names.reverse)
    (herror : (tree.haveDirectories names).2 = .error fault) : tree.IsBlocked names.reverse := by
  induction names generalizing fault with
  | nil => cases herror
  | cons name up ih =>
      have hreverse : (name :: up).reverse = up.reverse ++ [name] := List.reverse_cons
      have hprefix : up.reverse <+: (name :: up).reverse := hreverse ▸ List.prefix_append _ _
      have hup : tree.Straight up.reverse := h.of_isPrefix hprefix
      cases hmake : tree.makeDirectory (name :: up).reverse with
      | ok next =>
          rw [haveDirectories_of_made hmake] at herror
          cases herror
      | error refusal =>
          by_cases hmissing : refusal = .missing
          · subst hmissing
            rcases haveDirectories_of_missing hmake with ⟨other, hother, -⟩ | ⟨hok, heq⟩
            · exact (ih hup hother).of_isPrefix hprefix
            · rw [heq] at herror
              obtain ⟨hready, hdir⟩ := readied_haveDirectories tree up
              refine hready.paved.isBlocked
                ((h.mono hready.paved.keeps).haveDirectory_eq_error ?_ herror)
              rw [hreverse, List.dropLast_concat]
              exact hdir hok
          · rw [haveDirectories_of_refused hmake hmissing] at herror
            rcases h.makeDirectory_eq_error hmake with ⟨hcontra, -⟩ | hdir | hblocked
            · exact absurd hcontra hmissing
            · rw [acceptDirectory_eq_ok_iff.mpr hdir] at herror
              cases herror
            · exact hblocked

/-- Only a file stops the way along a straight route. -/
theorem Straight.makeWay_eq_error {fault : Fault} (h : tree.Straight route)
    (herror : (tree.makeWay route).2 = .error fault) : tree.IsBlocked route.dropLast := by
  rw [← reverse_reverse_tail]
  refine Straight.haveDirectories_eq_error ?_ herror
  rw [reverse_reverse_tail]
  exact h.of_isPrefix (List.dropLast_prefix route)

/-- Along a straight route only places above its end become directories. -/
theorem Paved.isPrefix_of_straight {before after : Tree} (h : before.Paved route after)
    (hstraight : before.Straight route) (place : Location) :
    after.find? place = before.find? place ∨
      before.find? place = none ∧ after.find? place = some .directory ∧ place <+: route := by
  refine (h.places place).imp_right ?_
  rintro ⟨hnone, hdir, stage, hstage, hwalk⟩
  have heq := ((hstraight.mono h.keeps).of_isPrefix hstage).eq_of_walk hwalk
  exact ⟨hnone, hdir, heq ▸ hstage⟩

/-- The end of a straight route is not on the way to it. -/
theorem Paved.find?_of_straight {before after : Tree} (h : before.Paved route.dropLast after)
    (hstraight : before.Straight route) : after.find? route = before.find? route := by
  have hway := hstraight.of_isPrefix (List.dropLast_prefix route)
  rcases h.isPrefix_of_straight hway route with hsame | ⟨hnone, -, hprefix⟩
  · exact hsame
  · have hlength := hprefix.length_le
    have hpositive := List.length_pos_iff.mpr (ne_nil_of_find?_eq_none hnone)
    rw [List.length_dropLast] at hlength
    omega

/-! ## Free names -/

theorem hiddenName_injective (name : String) : Function.Injective (hiddenName name) := by
  intro m n h
  have hdigits : Nat.toDigits 10 m = Nat.toDigits 10 n := by
    have hlist := congrArg String.toList h
    simpa [hiddenName, String.toList_append, Nat.toString_eq_ofList_toDigits] using hlist
  calc m = Nat.ofDigitChars 10 (Nat.toDigits 10 m) 0 := Nat.ofDigitChars_ten_toDigits.symm
    _ = Nat.ofDigitChars 10 (Nat.toDigits 10 n) 0 := by rw [hdigits]
    _ = n := Nat.ofDigitChars_ten_toDigits

/-- Not all of the names that are tried can be taken. -/
theorem exists_hiddenName_free (tree : Tree) (place : Location) (name : String) :
    ∃ number ∈ List.range (tree.entries.length + 1),
      tree.find? (place ++ [hiddenName name number]) = none := by
  by_contra htaken
  have hsubset : (List.range (tree.entries.length + 1)).map
      (fun number => place ++ [hiddenName name number]) ⊆ tree.entries.map Prod.fst := by
    intro other hother
    obtain ⟨number, hnumber, rfl⟩ := List.mem_map.mp hother
    by_contra habsent
    refine htaken ⟨number, hnumber, ?_⟩
    unfold find?
    rw [if_neg (by simp), List.lookup_eq_none_iff]
    intro entry hentry
    have hne : place ++ [hiddenName name number] ≠ entry.1 :=
      fun heq => habsent (heq ▸ List.mem_map_of_mem hentry)
    simpa using hne
  have hinjective : Function.Injective fun number => place ++ [hiddenName name number] :=
    fun m n h => hiddenName_injective name (List.singleton_injective (List.append_cancel_left h))
  have hlength :=
    (List.subperm_of_subset (List.nodup_range.map hinjective) hsubset).length_le
  rw [List.length_map, List.length_map, List.length_range] at hlength
  omega

/-- The location that a temporary file gets is free. -/
theorem find?_freshBeside (tree : Tree) (place : Location) (name : String) :
    tree.find? (tree.freshBeside place name) = none := by
  obtain ⟨number, hnumber, hfree⟩ := exists_hiddenName_free tree place name
  have hfound : ((List.range (tree.entries.length + 1)).find? fun number =>
      (tree.find? (place ++ [hiddenName name number])).isNone).isSome := by
    rw [List.find?_isSome]
    exact ⟨number, hnumber, by rw [hfree]; rfl⟩
  obtain ⟨first, hfirst⟩ := Option.isSome_iff_exists.mp hfound
  have hnone := List.find?_some hfirst
  unfold freshBeside
  rw [hfirst]
  simpa using hnone

end Tree
end Files
end ClientForge
