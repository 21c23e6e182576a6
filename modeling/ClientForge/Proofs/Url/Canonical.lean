import ClientForge.Proofs.Url.Normal
/-!
# The normal form of a URL is canonical

`flat` reads a template sign by sign, so that it does not show how the text was cut into parts.  The
normal form can be told from what is read there alone (`normalParts_eq_ofSigns`), and it reads the
same as the template (`flat_normalized`).  So two templates have one normal form exactly if they
read the same, and everything that depends on the reading only, such as slots and pattern, is kept.
-/

namespace ClientForge

/-- What a template is made of, text character by character. -/
inductive UrlSign where
  | char (c : Char)
  | slot (name : String) (type : Primitive)
  | base (default : Option String)
deriving DecidableEq, Repr

/-- The signs of a part. -/
def UrlPart.signs : UrlPart → List UrlSign
  | .text s => s.toList.map .char
  | .slot name type => [.slot name type]
  | .base default => [.base default]

namespace UrlSign

/-- The sign as a part of its own. -/
def part : UrlSign → UrlPart
  | .char c => .text (String.singleton c)
  | .slot name type => .slot name type
  | .base default => .base default

/-- The slot that a sign is. -/
def slot? : UrlSign → Option (String × Primitive)
  | .slot name type => some (name, type)
  | _ => none

end UrlSign

namespace UrlTemplate

/-- The signs of a template in order. -/
def flat (t : UrlTemplate) : List UrlSign :=
  t.parts.flatMap UrlPart.signs

/-- Templates one after the other. -/
def splice (pieces : List UrlTemplate) : UrlTemplate :=
  ⟨pieces.flatMap parts⟩

/-- The normal parts that signs make up. -/
def ofSigns (signs : List UrlSign) : List UrlPart :=
  signs.foldr (fun sign parts => attach sign.part parts) []

theorem attach_text_empty (parts : List UrlPart) : attach (.text "") parts = parts := by
  simp [attach]

/-- Text that is attached in two steps. -/
theorem attach_text_append (s t : String) (parts : List UrlPart) :
    attach (.text (s ++ t)) parts = attach (.text s) (attach (.text t) parts) := by
  by_cases hs : s = ""
  · rw [hs, String.empty_append, attach_text_empty]
  · by_cases ht : t = ""
    · rw [ht, String.append_empty, attach_text_empty]
    · cases parts with
      | nil => simp [attach, hs, ht]
      | cons next rest =>
          cases next with
          | text u => simp [attach, hs, ht, String.append_assoc]
          | slot name type => simp [attach, hs, ht]
          | base default => simp [attach, hs, ht]

/-- A part is attached sign by sign. -/
theorem foldr_attach_signs (part : UrlPart) (parts : List UrlPart) :
    part.signs.foldr (fun sign parts => attach sign.part parts) parts = attach part parts := by
  cases part with
  | text s =>
      rw [UrlPart.signs, List.foldr_map]
      obtain ⟨cs, rfl⟩ : ∃ cs, s = String.ofList cs := ⟨s.toList, String.ofList_toList.symm⟩
      rw [String.toList_ofList]
      induction cs with
      | nil => exact (attach_text_empty parts).symm
      | cons c cs ih =>
          have hcons : String.ofList (c :: cs) = String.singleton c ++ String.ofList cs := by
            apply String.toList_inj.mp
            simp
          rw [List.foldr_cons, ih, hcons, attach_text_append]
          rfl
  | slot name type => rfl
  | base default => rfl

/-- The normal form depends on the signs only. -/
theorem normalParts_eq_ofSigns (parts : List UrlPart) :
    normalParts parts = ofSigns (parts.flatMap UrlPart.signs) := by
  induction parts with
  | nil => rfl
  | cons part rest ih =>
      rw [List.flatMap_cons, ofSigns, List.foldr_append, ← ofSigns, ← ih, foldr_attach_signs]
      rfl

/-- Attached text joins other text or is dropped, but it is read in its place. -/
theorem flatMap_signs_attach (part : UrlPart) (parts : List UrlPart) :
    (attach part parts).flatMap UrlPart.signs = part.signs ++ parts.flatMap UrlPart.signs := by
  cases part with
  | text s =>
      by_cases hs : s = ""
      · rw [hs, attach_text_empty]
        rfl
      · cases parts with
        | nil => simp [attach, hs]
        | cons next rest =>
            cases next with
            | text t => simp [attach, hs, UrlPart.signs]
            | slot name type => simp [attach, hs]
            | base default => simp [attach, hs]
  | slot name type => rfl
  | base default => rfl

/-- The normal form is read as the template is. -/
theorem flat_normalized (t : UrlTemplate) : t.normalized.flat = t.flat := by
  obtain ⟨parts⟩ := t
  change (normalParts parts).flatMap UrlPart.signs = parts.flatMap UrlPart.signs
  induction parts with
  | nil => rfl
  | cons part rest ih => rw [normalParts, flatMap_signs_attach, ih, List.flatMap_cons]

/-- Two templates have one normal form exactly if they read the same. -/
theorem normalized_eq_iff {a b : UrlTemplate} : a.normalized = b.normalized ↔ a.flat = b.flat := by
  constructor
  · intro h
    rw [← flat_normalized a, h, flat_normalized]
  · intro h
    rw [normalized, normalized, normalParts_eq_ofSigns, normalParts_eq_ofSigns]
    exact congrArg (fun signs => UrlTemplate.mk (ofSigns signs)) h

/-! ## What a reader sees -/

/-- The slots can be told from the signs. -/
theorem slots_eq_filterMap (t : UrlTemplate) : t.slots = t.flat.filterMap UrlSign.slot? := by
  have hpart : ∀ part : UrlPart, part.signs.filterMap UrlSign.slot? = slots ⟨[part]⟩ := by
    intro part
    cases part with
    | text s => simp [UrlPart.signs, UrlSign.slot?, slots]
    | slot name type => rfl
    | base default => rfl
  obtain ⟨parts⟩ := t
  rw [flat, List.filterMap_flatMap]
  induction parts with
  | nil => rfl
  | cons part rest ih =>
      rw [List.flatMap_cons, hpart, ← ih]
      exact List.filterMap_append (l := [part])

/-- The pattern can be told from the signs. -/
theorem pattern_eq_join (t : UrlTemplate) :
    t.pattern = String.join (t.flat.map fun sign => partPattern sign.part) := by
  have hpart : ∀ part : UrlPart, (partPattern part).toList =
      part.signs.flatMap fun sign => (partPattern sign.part).toList := by
    intro part
    cases part with
    | text s => simp [UrlPart.signs, UrlSign.part, partPattern, List.flatMap_map]
    | slot name type => simp [UrlPart.signs, UrlSign.part]
    | base default => simp [UrlPart.signs, UrlSign.part]
  apply String.toList_inj.mp
  rw [pattern, flat, String.toList_join, String.toList_join, List.flatMap_map, List.flatMap_map,
    List.flatMap_assoc]
  exact List.flatMap_congr fun part _ => hpart part

/-- What is spliced is read one after the other. -/
theorem flat_splice (pieces : List UrlTemplate) : (splice pieces).flat = pieces.flatMap flat :=
  List.flatMap_assoc

/-- The normal form of a template has no empty text and no neighbouring texts, and reads as the
template does, so slots and pattern are the same.  It is canonical: another template has it exactly
if it reads the same.  So nothing changes when it is made again, or when pieces are normal before
they are spliced. -/
theorem normalized_canonical (a b : UrlTemplate) :
    Normal (a.normalized.parts.map UrlPart.text?) ∧
      a.normalized.flat = a.flat ∧ a.normalized.slots = a.slots ∧
      a.normalized.pattern = a.pattern ∧
      (a.normalized = b.normalized ↔ a.flat = b.flat) ∧
      a.normalized.normalized = a.normalized ∧
      ∀ pieces : List UrlTemplate,
        (splice (pieces.map normalized)).normalized = (splice pieces).normalized := by
  have hflat := flat_normalized a
  refine ⟨normal_normalParts a.parts, hflat, ?_, ?_, normalized_eq_iff,
    normalized_eq_iff.mpr hflat, fun pieces => normalized_eq_iff.mpr ?_⟩
  · rw [slots_eq_filterMap, slots_eq_filterMap, hflat]
  · rw [pattern_eq_join, pattern_eq_join, hflat]
  · rw [flat_splice, flat_splice, List.flatMap_map]
    exact List.flatMap_congr fun piece _ => flat_normalized piece

end UrlTemplate
end ClientForge
