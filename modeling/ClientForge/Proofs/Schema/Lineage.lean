import ClientForge.Proofs.Schema.Outcome
import ClientForge.Proofs.Url.Reading
/-!
# References in a lineage

While a node is being resolved its own scope is still empty, and every scope that encloses it holds
its URL and nothing else.  So a reference can be read exactly if it names the attribute `url` of a
strict ancestor (`resolve_eq_ok_iff`).  Whether a `$url` can be resolved depends on its own text and
on the depth of the node alone (`exists_resolveUrl_iff`); what the result reads as depends on the
readings of the enclosing URLs alone (`url_of_resolveUrl`).
-/

namespace ClientForge

/-- A reference reads the scope it lands on and no other. -/
theorem Scope.resolve_eq_ok_iff_getElem? {lineage : List Scope} {hops : Nat} {attr : String}
    {value : Attribute} :
    Scope.resolve lineage hops attr = .ok value ↔
      ∃ scope, lineage[hops]? = some scope ∧ scope.attribute? attr = some value := by
  unfold Scope.resolve
  rw [← List.head?_drop, Scope.climb_eq_drop]
  cases lineage.drop hops with
  | nil => simp
  | cons scope outer =>
      simp only [List.head?_cons, Option.elim_some, Option.some.injEq]
      constructor
      · intro h
        refine ⟨scope, rfl, ?_⟩
        cases hattr : scope.attribute? attr with
        | none => simp [hattr] at h
        | some found => simpa [hattr] using h
      · rintro ⟨_, rfl, hattr⟩
        simp [hattr]

namespace Schema

/-- Every scope of the lineage holds its URL, the given one, and nothing else. -/
def Carries (lineage : List Scope) (templates : List UrlTemplate) : Prop :=
  List.Forall₂ (fun scope template => scope.attributes = [("url", .url template)])
    lineage templates

theorem Carries.length_eq {lineage : List Scope} {templates : List UrlTemplate}
    (h : Carries lineage templates) : lineage.length = templates.length :=
  List.Forall₂.length_eq h

/-- One more scope inside, once its URL is known. -/
theorem Carries.assign {lineage : List Scope} {templates : List UrlTemplate} {scope : Scope}
    (h : Carries lineage templates) (hscope : scope.attributes = []) (template : UrlTemplate) :
    Carries (scope.assign "url" (.url template) :: lineage) (template :: templates) := by
  refine List.Forall₂.cons ?_ h
  simp [Scope.assign, hscope, Scope.place]

/-- A scope that carries a URL answers to the name `url` only. -/
private theorem attribute?_eq_some_iff {scope : Scope} {template : UrlTemplate} {attr : String}
    {value : Attribute} (hscope : scope.attributes = [("url", .url template)]) :
    scope.attribute? attr = some value ↔ attr = "url" ∧ value = .url template := by
  unfold Scope.attribute?
  rw [hscope]
  by_cases hattr : attr = "url"
  · subst hattr
    simp [List.lookup_cons_self, eq_comm]
  · have hne : (attr == "url") = false := beq_eq_false_iff_ne.mpr hattr
    simp [List.lookup_cons, hne, hattr]

private theorem Carries.getElem?_iff {lineage : List Scope} {templates : List UrlTemplate}
    (h : Carries lineage templates) {hops : Nat} {attr : String} {value : Attribute} :
    (∃ scope, lineage[hops]? = some scope ∧ scope.attribute? attr = some value) ↔
      attr = "url" ∧ ∃ template, templates[hops]? = some template ∧ value = .url template := by
  induction h generalizing hops with
  | nil => simp
  | @cons scope template lineage templates hscope _ ih =>
      cases hops with
      | zero =>
          simp only [List.getElem?_cons_zero, Option.some.injEq, exists_eq_left']
          exact attribute?_eq_some_iff hscope
      | succ hops =>
          simp only [List.getElem?_cons_succ]
          exact ih

/-- Among all attributes only the URL of a strict ancestor can be read. -/
theorem resolve_eq_ok_iff {own : Scope} {enclosing : List Scope} {templates : List UrlTemplate}
    (hown : own.attributes = []) (hcarries : Carries enclosing templates) {hops : Nat}
    {attr : String} {value : Attribute} :
    Scope.resolve (own :: enclosing) hops attr = .ok value ↔
      attr = "url" ∧ ∃ n template, hops = n + 1 ∧ templates[n]? = some template ∧
        value = .url template := by
  rw [Scope.resolve_eq_ok_iff_getElem?]
  cases hops with
  | zero => simp [Scope.attribute?, hown]
  | succ n =>
      simp only [List.getElem?_cons_succ, Nat.add_right_cancel_iff, exists_and_left,
        exists_eq_left']
      exact hcarries.getElem?_iff

/-! ## Segments -/

/-- Whether a segment can stand in the `$url` of a node at a depth below the root. -/
def SegmentFits (depth : Nat) : Segment → Prop
  | .literal _ => True
  | .placeholder _ spec => spec.default = none
  | .reference hops attr => attr = "url" ∧ 1 ≤ hops ∧ hops ≤ depth

/-- Whether a value can be the `$url` of a node at a depth below the root. -/
def UrlFits (depth : Nat) (raw : Value) : Prop :=
  ∃ s e, raw = .str s ∧ Expression.parse s = .ok e ∧
    ∀ segment ∈ e.segments, SegmentFits depth segment

section Resolution

variable {own : Scope} {enclosing : List Scope} {templates : List UrlTemplate}

/-- A reference either splices in a URL that is carried, or is refused. -/
private theorem resolve_cases (hown : own.attributes = []) (hcarries : Carries enclosing templates)
    (hops : Nat) (attr : String) :
    (∃ n template, attr = "url" ∧ hops = n + 1 ∧ templates[n]? = some template ∧
      Scope.resolve (own :: enclosing) hops attr = .ok (.url template)) ∨
    (¬ SegmentFits enclosing.length (.reference hops attr) ∧
      ∃ fault, Scope.resolve (own :: enclosing) hops attr = .error fault) := by
  cases hresolve : Scope.resolve (own :: enclosing) hops attr with
  | ok value =>
      obtain ⟨hattr, n, template, hhops, hget, rfl⟩ := (resolve_eq_ok_iff hown hcarries).mp hresolve
      exact Or.inl ⟨n, template, hattr, hhops, hget, rfl⟩
  | error fault =>
      refine Or.inr ⟨?_, fault, rfl⟩
      rintro ⟨hattr, hpos, hle⟩
      -- a reference that fits finds one of the templates, so it cannot have been refused
      obtain ⟨n, rfl⟩ : ∃ n, hops = n + 1 := ⟨hops - 1, by omega⟩
      have hlt : n < templates.length := by
        rw [← hcarries.length_eq]
        omega
      have hok : Scope.resolve (own :: enclosing) (n + 1) attr = .ok (.url templates[n]) :=
        (resolve_eq_ok_iff hown hcarries).mpr
          ⟨hattr, n, templates[n], rfl, List.getElem?_eq_getElem hlt, rfl⟩
      rw [hresolve] at hok
      cases hok

/-- Segments can be expanded exactly if each of them fits. -/
theorem exists_expandSegments_iff (hown : own.attributes = [])
    (hcarries : Carries enclosing templates) (list : List Segment) :
    (∃ parts, expandSegments (own :: enclosing) list = .ok parts) ↔
      ∀ segment ∈ list, SegmentFits enclosing.length segment := by
  induction list with
  | nil => simp [expandSegments]
  | cons segment rest ih =>
      rw [List.forall_mem_cons, ← ih]
      cases segment with
      | literal s => simp [expandSegments, exceptMap_eq_ok_iff, SegmentFits]
      | placeholder name spec =>
          cases hdefault : spec.default with
          | none => simp [expandSegments, hdefault, exceptMap_eq_ok_iff, SegmentFits]
          | some value => simp [expandSegments, hdefault, SegmentFits]
      | reference hops attr =>
          rcases resolve_cases hown hcarries hops attr with
            ⟨n, template, rfl, rfl, hget, hresolve⟩ | ⟨hfits, fault, hresolve⟩
          · obtain ⟨hlt, -⟩ := List.getElem?_eq_some_iff.mp hget
            have hdepth : n + 1 ≤ enclosing.length := by
              rw [hcarries.length_eq]
              omega
            simp [expandSegments, hresolve, exceptMap_eq_ok_iff, SegmentFits, hdepth]
          · simp [expandSegments, hresolve, hfits]

/-- Expanded segments read as the segments do, with the enclosing URLs read as carried. -/
theorem segments_of_expandSegments {α : Type} (r : Reading α) (hown : own.attributes = [])
    (hcarries : Carries enclosing templates) {list : List Segment} {parts : List UrlPart}
    (h : expandSegments (own :: enclosing) list = .ok parts) :
    r.segments (templates.map r.template) list = some (r.parts parts) := by
  induction list generalizing parts with
  | nil =>
      cases h
      rfl
  | cons segment rest ih =>
      cases segment with
      | literal s =>
          obtain ⟨others, hrest, rfl⟩ := exceptMap_eq_ok_iff.mp h
          rw [Reading.segments, ih hrest]
          rfl
      | placeholder name spec =>
          rw [expandSegments] at h
          split at h
          · cases h
          · obtain ⟨others, hrest, rfl⟩ := exceptMap_eq_ok_iff.mp h
            rw [Reading.segments, ih hrest]
            rfl
      | reference hops attr =>
          rcases resolve_cases hown hcarries hops attr with
            ⟨n, template, rfl, rfl, hget, hresolve⟩ | ⟨-, fault, hresolve⟩
          · simp only [expandSegments, hresolve] at h
            obtain ⟨others, hrest, rfl⟩ := exceptMap_eq_ok_iff.mp h
            have hancestor : Reading.ancestor? (templates.map r.template) (n + 1) =
                some (r.template template) := by
              simp [Reading.ancestor?, hget]
            rw [Reading.segments, if_pos rfl, hancestor, ih hrest, Reading.parts_append]
            rfl
          · simp [expandSegments, hresolve] at h

/-! ## Whole URLs -/

/-- A `$url` can be resolved exactly if it fits the depth of its node. -/
theorem exists_resolveUrl_iff (hown : own.attributes = []) (hcarries : Carries enclosing templates)
    (raw : Value) :
    (∃ url, resolveUrl (own :: enclosing) raw = .ok url) ↔ UrlFits enclosing.length raw := by
  cases raw with
  | str s =>
      cases hparse : Expression.parse s with
      | error fault => simp [resolveUrl, UrlFits, hparse]
      | ok e =>
          have hsegments := exists_expandSegments_iff hown hcarries e.segments
          simp only [resolveUrl, hparse, exceptMap_eq_ok_iff]
          constructor
          · rintro ⟨_, parts, hparts, -⟩
            exact ⟨s, e, rfl, hparse, hsegments.mp ⟨parts, hparts⟩⟩
          · rintro ⟨_, e', heq, hparse', hfits⟩
            cases heq
            rw [hparse] at hparse'
            cases hparse'
            obtain ⟨parts, hparts⟩ := hsegments.mpr hfits
            exact ⟨_, parts, hparts, rfl⟩
  | _ => simp [resolveUrl, UrlFits]

/-- A resolved `$url` reads as its value does, with the enclosing URLs read as carried. -/
theorem url_of_resolveUrl {α : Type} (r : Reading α) (hown : own.attributes = [])
    (hcarries : Carries enclosing templates) {raw : Value} {url : UrlTemplate}
    (h : resolveUrl (own :: enclosing) raw = .ok url) :
    r.url (templates.map r.template) raw = some (r.template url) := by
  cases raw with
  | str s =>
      cases hparse : Expression.parse s with
      | error fault => simp [resolveUrl, hparse] at h
      | ok e =>
          simp only [resolveUrl, hparse] at h
          obtain ⟨parts, hparts, rfl⟩ := exceptMap_eq_ok_iff.mp h
          simp only [Reading.url, hparse]
          rw [segments_of_expandSegments r hown hcarries hparts, Reading.template_normalized]
          rfl
  | _ => simp [resolveUrl] at h

end Resolution

end Schema
end ClientForge
