import ClientForge.Pipeline
import ClientForge.Proofs.Files.Writing
import ClientForge.Proofs.Session
/-!
# Deliveries into a file tree

A delivery is made in full or not at all, whatever the Python check accepts
(`eachStep_allOrNothing`).

* If it is made, its target holds the text, and nothing else is new but directories that its route
  passes.  A target that is replaced stands in the directory that all names but the last lead to; a
  target that is written in place is where the whole route leads, and all names of that file have
  the text.
* If it fails, every file is as it was, with one exception: a target that is written in place is
  empty already when its text turns out not to be encodable.
* What is found out before the tree is touched, such as a target that is protected, a text that does
  not pass its check, or a document that cannot be compiled, leaves the whole tree as it was.

On a straight route the target is what the route says, and the new directories lie above it.  In a
closed tree a protected target is then one that is there, and the system refuses only where a file
is in the way or the target is a directory.  The path of a compiled source is straight as soon as it
can be resolved.  On a route that turns round a target may be missed: it need not lead anywhere
before its directories are made (`run_detour_guarded`).
-/

namespace ClientForge
namespace Pipeline
namespace Delivery

open Files

/-- The target can be named without going back and without a link.  For a compiled source it does
not matter how its path is written, as long as no link on it leads back to itself. -/
def IsStraight (tree : Tree) : Delivery → Prop
  | .write _ job => tree.Straight job.route
  | .generate _ route _ _ => ∃ place, tree.resolve route = .ok place

theorem straight_of_isStraight {tree : Tree} {delivery : Delivery} {job : Job}
    (h : delivery.IsStraight tree) (hjob : delivery.job tree = .ok job) :
    tree.Straight job.route := by
  cases delivery with
  | write output given =>
      cases hjob
      exact h
  | generate output route language compiled =>
      obtain ⟨place, hplace⟩ := h
      cases compiled with
      | error fault => cases hjob
      | ok content =>
          simp only [Delivery.job] at hjob
          cases htarget : tree.locate? route with
          | none =>
              rw [htarget] at hjob
              cases hjob
          | some target =>
              rw [htarget] at hjob
              cases hjob
              rw [Tree.eq_of_locate? hplace htarget]
              exact Tree.straight_of_resolve hplace

/-- What a delivery does to a tree: all of it, or nothing that concerns a file.  It fails only
because there is no text, because the job is not permitted, because the text cannot be encoded, or
because the system refuses; only in the last two cases may directories be new. -/
structure AllOrNothing (python : PythonCheck) (before : Tree) (delivery : Delivery)
    (out : Tree × Except PipelineFault Unit) : Prop where
  made : out.2 = .ok () → ∃ job octets ready target, delivery.job before = .ok job ∧
    job.content.encode = .ok octets ∧ before.Paved job.route.dropLast ready ∧
    ready.Arrives delivery.output.atomicWrite job.route target ∧
    ready.Received (!delivery.output.atomicWrite) target octets out.1 ∧
    ((∀ path, ready.find? target ≠ some (.link path)) → out.1.read job.route = .ok octets) ∧
    (delivery.output.mode = .error → before.leads job.route = false)
  straight : out.2 = .ok () → delivery.IsStraight before → ∃ job octets,
    delivery.job before = .ok job ∧ job.content.encode = .ok octets ∧
    (delivery.output.atomicWrite = true ∨ before.Alone job.route →
      before.Delivered job.route octets out.1) ∧
    (before.Closed → delivery.output.mode = .error → before.find? job.route = none)
  failed : ∀ fault, out.2 = .error fault →
    delivery.output.atomicWrite = true ∨ (∀ encoding, fault ≠ .write (.encoding encoding)) →
    before.SameFiles out.1
  emptied : ∀ job encoding, delivery.job before = .ok job →
    out.2 = .error (.write (.encoding encoding)) → delivery.output.atomicWrite = false →
    ∃ ready target, before.Paved job.route.dropLast ready ∧ ready.walk job.route = .ok target ∧
      ready.Received true target [] out.1
  early : ∀ fault, out.2 = .error fault → (∀ refusal, fault ≠ .write (.system refusal)) →
    (∀ encoding, fault ≠ .write (.encoding encoding)) → out.1 = before
  reason : ∀ fault, out.2 = .error fault → delivery.job before = .error fault ∨
    ∃ job reason, delivery.job before = .ok job ∧ fault = .write reason ∧
      (job.permit python delivery.output before = .error reason ∨
        (∃ encoding, reason = .encoding encoding ∧ job.content.encode = .error encoding) ∨
        ∃ refusal, reason = .system refusal ∧ (delivery.IsStraight before →
          before.IsBlocked job.route.dropLast ∨ before.find? job.route = some .directory))
  closed : before.Closed → out.1.Closed

section
variable {python : PythonCheck} {before : Tree} {delivery : Delivery} {job : Job}

/-- What is found out early is found out before the tree is touched. -/
theorem allOrNothing_early {fault : PipelineFault}
    (hreason : delivery.job before = .error fault ∨ ∃ job reason,
      delivery.job before = .ok job ∧ fault = .write reason ∧
        job.permit python delivery.output before = .error reason) :
    AllOrNothing python before delivery (before, .error fault) where
  made := nofun
  straight := nofun
  failed _ _ _ := .refl before
  emptied := by
    rintro job encoding hjob h
    cases h
    rcases hreason with herror | ⟨other, reason, hother, hfault, hdenied⟩
    · rw [hjob] at herror
      cases herror
    · cases hfault
      exact absurd rfl (Job.permit_ne hdenied encoding)
  early _ _ _ _ := rfl
  reason := by
    rintro other h
    cases h
    refine hreason.imp_right ?_
    rintro ⟨job, reason, hjob, hfault, hdenied⟩
    exact ⟨job, reason, hjob, hfault, Or.inl hdenied⟩
  closed := id

/-- What the system refuses leaves new directories at most. -/
theorem allOrNothing_refused {ready : Tree} (hjob : delivery.job before = .ok job) (fault : Fault)
    (hready : before.Readied job.route.dropLast ready)
    (hwhy : before.Straight job.route →
      before.IsBlocked job.route.dropLast ∨ before.find? job.route = some .directory) :
    AllOrNothing python before delivery (ready, .error (.write (.system fault))) where
  made := nofun
  straight := nofun
  failed _ _ _ := hready.paved.sameFiles
  emptied := nofun
  early := by
    rintro other h hother
    cases h
    exact absurd rfl (hother fault)
  reason := by
    rintro other h
    cases h
    exact Or.inr ⟨job, _, hjob, rfl, Or.inr (Or.inr
      ⟨fault, rfl, fun hstraight => hwhy (straight_of_isStraight hstraight hjob)⟩)⟩
  closed := hready.closed

/-- A text that cannot be encoded leaves an empty target at most. -/
theorem allOrNothing_unencodable {after ready : Tree} {encoding : Text.EncodeFault}
    (hjob : delivery.job before = .ok job) (hcontent : job.content.encode = .error encoding)
    (hready : before.Readied job.route.dropLast ready)
    (hafter : delivery.output.atomicWrite = true ∧ after = ready ∨
      delivery.output.atomicWrite = false ∧ ∃ target, ready.Stored [] false job.route target after) :
    AllOrNothing python before delivery (after, .error (.write (.encoding encoding))) where
  made := nofun
  straight := nofun
  failed := by
    rintro fault h hatomic
    cases h
    rcases hatomic with hatomic | hother
    · rcases hafter with ⟨-, rfl⟩ | ⟨hdirect, -⟩
      · exact hready.paved.sameFiles
      · rw [hatomic] at hdirect
        cases hdirect
    · exact absurd rfl (hother encoding)
  emptied := by
    rintro other encoding hother - hdirect
    rw [hjob] at hother
    cases hother
    rcases hafter with ⟨hatomic, -⟩ | ⟨-, target, hstored⟩
    · rw [hdirect] at hatomic
      cases hatomic
    · exact ⟨ready, target, hready.paved, hstored.arrives, hstored.received⟩
  early := by
    rintro other h - hother
    cases h
    exact absurd rfl (hother encoding)
  reason := by
    rintro other h
    cases h
    exact Or.inr ⟨job, _, hjob, rfl, Or.inr (Or.inl ⟨encoding, rfl, hcontent⟩)⟩
  closed := by
    intro hclosed
    rcases hafter with ⟨-, rfl⟩ | ⟨-, target, hstored⟩
    · exact hready.closed hclosed
    · exact hstored.closed (hready.closed hclosed)

theorem allOrNothing_done {after ready : Tree} {octets : List UInt8} {target : Location}
    (hjob : delivery.job before = .ok job) (hcontent : job.content.encode = .ok octets)
    (hready : before.Readied job.route.dropLast ready)
    (hstored : ready.Stored octets delivery.output.atomicWrite job.route target after)
    (hnew : delivery.output.mode = .error → before.leads job.route = false) :
    AllOrNothing python before delivery (after, .ok ()) where
  made _ := ⟨job, octets, ready, target, hjob, hcontent, hready.paved, hstored.arrives,
    hstored.received, hstored.read_eq, hnew⟩
  straight := by
    intro _ h
    have hstraight := straight_of_isStraight h hjob
    refine ⟨job, octets, hjob, hcontent, hstored.delivered hready.paved hstraight, ?_⟩
    intro hclosed hmode
    exact hstraight.find?_of_leads hclosed (hnew hmode)
  failed := nofun
  emptied := nofun
  early := nofun
  reason := nofun
  closed hclosed := hstored.closed (hready.closed hclosed)

end

theorem allOrNothing_run (python : PythonCheck) (before : Tree) (delivery : Delivery) :
    AllOrNothing python before delivery (delivery.run python before) := by
  unfold run
  cases hjob : delivery.job before with
  | error fault => exact allOrNothing_early (Or.inl hjob)
  | ok job =>
      have hran := Job.ran_run python delivery.output before job
      dsimp only
      generalize job.run python delivery.output before = out at hran
      cases hran with
      | forbidden denied => exact allOrNothing_early (Or.inr ⟨job, _, hjob, rfl, denied⟩)
      | blocked fault readied why =>
          exact allOrNothing_refused hjob fault readied fun hstraight => Or.inl (why hstraight)
      | @wrote ready _ permitted readied way written =>
          have hnew := Job.leads_of_permit permitted
          cases written with
          | refused fault why =>
              refine allOrNothing_refused hjob fault readied fun hstraight => Or.inr ?_
              rw [← readied.paved.find?_of_straight hstraight]
              exact why (hstraight.mono readied.paved.keeps) way
          | unencodable content apart =>
              exact allOrNothing_unencodable hjob content readied (Or.inl ⟨apart, rfl⟩)
          | emptied content in_place stored =>
              exact allOrNothing_unencodable hjob content readied
                (Or.inr ⟨in_place, _, in_place ▸ stored⟩)
          | done content stored => exact allOrNothing_done hjob content readied stored hnew

/-- Whatever is delivered into whatever tree, one delivery after another: each is made in full or
not at all. -/
theorem eachStep_allOrNothing (python : PythonCheck) (tree : Tree) (deliveries : List Delivery) :
    EachStep (AllOrNothing python) tree deliveries
      (session (Delivery.run python) tree deliveries) := by
  apply eachStep_session_of_forall
  intro before delivery
  exact allOrNothing_run python before delivery

/-- A tree with one source in it. -/
def guarded : Tree :=
  ⟨[(["client.js"], .file 1)], [(1, "class A {}".toUTF8.data.toList)]⟩

/-- Half of a surrogate pair cannot be encoded.  Written in place, it leaves its target empty. -/
example : (Delivery.write ⟨.force, false, false⟩
    ⟨["client.js"], [.half 0], .str "javascript"⟩).run Check.checkPython guarded =
      (⟨[(["client.js"], .file 1)], [(1, [])]⟩, .error (.write (.encoding ⟨0, 0, 0⟩))) := by
  decide +kernel

/-- A delivery that must not replace its target, by way of a directory that is left again. -/
def detour : Delivery :=
  .write ⟨.error, true, true⟩
    ⟨["build", "..", "client.js"], Text.Points.ofString "class B {}", .str "javascript"⟩

/-- As long as the directory is not there, the route leads nowhere.  So the source that is at its
end is replaced, and the directory stays, which is not above it. -/
theorem run_detour_guarded :
    detour.output.mode = .error ∧ guarded.leads ["client.js"] = true ∧
      detour.run Check.checkPython guarded =
        (⟨[(["client.js"], .file 2), (["build"], .directory)],
          [(2, "class B {}".toUTF8.data.toList), (1, "class A {}".toUTF8.data.toList)]⟩,
          .ok ()) := by
  refine ⟨rfl, ?_, ?_⟩ <;> decide +kernel

end Delivery
end Pipeline
end ClientForge
