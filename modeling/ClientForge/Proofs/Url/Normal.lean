import Mathlib.Data.List.Chain
import ClientForge.Url.Template
/-!
# Normal URLs

A URL is normal if none of its texts is empty and no two of them are neighbours.  The normal form of
a template is (`normal_normalParts`).  Only the texts matter, so `Normal` is stated for a list that
has `none` for everything else: it speaks of the parts of a template and of the pieces of a method
alike.
-/

namespace ClientForge

/-- No text is empty, and no two texts are neighbours. -/
structure Normal (texts : List (Option String)) : Prop where
  nonempty : some "" ∉ texts
  apart : texts.IsChain fun s t => s = none ∨ t = none

theorem normal_nil : Normal [] :=
  ⟨List.not_mem_nil, List.IsChain.nil⟩

theorem normal_none_cons_iff {texts : List (Option String)} :
    Normal (none :: texts) ↔ Normal texts := by
  constructor
  · rintro ⟨hnonempty, hapart⟩
    exact ⟨fun hmem => hnonempty (List.mem_cons_of_mem _ hmem), (List.isChain_cons.mp hapart).2⟩
  · rintro ⟨hnonempty, hapart⟩
    exact ⟨by simpa using hnonempty, List.isChain_cons.mpr ⟨fun _ _ => Or.inl rfl, hapart⟩⟩

theorem normal_some_cons_iff {s : String} {texts : List (Option String)} :
    Normal (some s :: texts) ↔ s ≠ "" ∧ (∀ t ∈ texts.head?, t = none) ∧ Normal texts := by
  constructor
  · rintro ⟨hnonempty, hapart⟩
    obtain ⟨hhead, hrest⟩ := List.isChain_cons.mp hapart
    refine ⟨?_, fun t ht => (hhead t ht).resolve_left (by simp), ?_, hrest⟩
    · rintro rfl
      exact hnonempty List.mem_cons_self
    · exact fun hmem => hnonempty (List.mem_cons_of_mem _ hmem)
  · rintro ⟨hs, hhead, hnonempty, hapart⟩
    refine ⟨?_, List.isChain_cons.mpr ⟨fun t ht => Or.inr (hhead t ht), hapart⟩⟩
    rw [List.mem_cons, not_or]
    exact ⟨fun heq => hs (Option.some.inj heq).symm, hnonempty⟩

/-- The text of a part that is nothing but text. -/
@[simp] def UrlPart.text? : UrlPart → Option String
  | .text s => some s
  | _ => none

namespace UrlTemplate

theorem normal_attach (part : UrlPart) {parts : List UrlPart}
    (h : Normal (parts.map UrlPart.text?)) : Normal ((attach part parts).map UrlPart.text?) := by
  cases part with
  | text s =>
      by_cases hs : s = ""
      · simpa [attach, hs] using h
      · cases parts with
        | nil => simpa [attach, hs, normal_some_cons_iff] using normal_nil
        | cons next rest =>
            cases next with
            | text t =>
                -- the joined text stands before what the second text stood before
                obtain ⟨-, hhead, hrest⟩ := normal_some_cons_iff.mp h
                have hjoined : s ++ t ≠ "" := by simp [hs]
                simpa [attach, hs] using normal_some_cons_iff.mpr ⟨hjoined, hhead, hrest⟩
            | slot name type =>
                simpa [attach, hs] using normal_some_cons_iff.mpr ⟨hs, by simp, h⟩
            | base default =>
                simpa [attach, hs] using normal_some_cons_iff.mpr ⟨hs, by simp, h⟩
  | slot name type => exact normal_none_cons_iff.mpr h
  | base default => exact normal_none_cons_iff.mpr h

/-- The normal form is normal. -/
theorem normal_normalParts (parts : List UrlPart) :
    Normal ((normalParts parts).map UrlPart.text?) := by
  induction parts with
  | nil => exact normal_nil
  | cons part rest ih => exact normal_attach part ih

end UrlTemplate
end ClientForge
