import ClientForge.Document.Value
import ClientForge.Expression
import ClientForge.Url.Template
/-!
# Readings of URLs

A reading says what the text, the slots and the base URL of a URL stand for, as lists over some
alphabet.  It is applied in two places:

* `Reading.template` reads a resolved template part by part;
* `Reading.direct` reads the `$url` values of a document without any template: a reference is
  replaced by the reading of the enclosing node that it names.

The normal form of a template does not change its reading.  That the two agree on bound documents
is not shown here.
-/

namespace ClientForge

/-- What the parts of a URL stand for.  Only the text of a URL can be cut in pieces, and it may be
cut anywhere. -/
structure Reading (α : Type) where
  text : String → List α
  slot : String → Primitive → List α
  base : List α
  text_append : ∀ s t, text (s ++ t) = text s ++ text t

namespace Reading

variable {α : Type}

/-- The characters of a URL, given the base URL and the values of the placeholders. -/
def ofValues (base : String) (value : String → String) : Reading Char where
  text := String.toList
  slot name _ := (value name).toList
  base := base.toList
  text_append _ _ := String.toList_append

/-- The placeholders of a URL with their types, in order. -/
def ofSlots : Reading (String × Primitive) where
  text _ := []
  slot name type := [(name, type)]
  base := []
  text_append _ _ := rfl

/-- No text, nothing to read. -/
theorem text_empty (r : Reading α) : r.text "" = [] := by
  have happend : r.text "" = r.text "" ++ r.text "" := r.text_append "" ""
  exact List.self_eq_append_right.mp happend

/-! ## Templates -/

/-- A part of a template. -/
def part (r : Reading α) : UrlPart → List α
  | .text s => r.text s
  | .slot name type => r.slot name type
  | .base _ => r.base

/-- Parts in a row. -/
def parts (r : Reading α) (list : List UrlPart) : List α :=
  list.flatMap r.part

/-- A whole template. -/
def template (r : Reading α) (t : UrlTemplate) : List α :=
  r.parts t.parts

@[simp] theorem parts_nil (r : Reading α) : r.parts [] = [] := by rfl

@[simp] theorem parts_cons (r : Reading α) (p : UrlPart) (list : List UrlPart) :
    r.parts (p :: list) = r.part p ++ r.parts list := rfl

@[simp] theorem parts_append (r : Reading α) (list more : List UrlPart) :
    r.parts (list ++ more) = r.parts list ++ r.parts more :=
  List.flatMap_append

/-- Text that joins text, and text that is dropped, read the same as before. -/
theorem parts_attach (r : Reading α) (p : UrlPart) (list : List UrlPart) :
    r.parts (UrlTemplate.attach p list) = r.part p ++ r.parts list := by
  cases p with
  | text s =>
      by_cases hs : s = ""
      · subst hs
        simp [UrlTemplate.attach, part, r.text_empty]
      · cases list with
        | nil => simp [UrlTemplate.attach, hs]
        | cons q rest =>
            cases q with
            | text t => simp [UrlTemplate.attach, hs, part, r.text_append]
            | slot name type => simp [UrlTemplate.attach, hs]
            | base default => simp [UrlTemplate.attach, hs]
  | slot name type => rfl
  | base default => rfl

/-- The normal form keeps every reading. -/
theorem parts_normalParts (r : Reading α) (list : List UrlPart) :
    r.parts (UrlTemplate.normalParts list) = r.parts list := by
  induction list with
  | nil => rfl
  | cons p rest ih => rw [UrlTemplate.normalParts, parts_attach, ih, parts_cons]

theorem template_normalized (r : Reading α) (t : UrlTemplate) :
    r.template t.normalized = r.template t :=
  r.parts_normalParts t.parts

/-- The slots of a template are one of its readings. -/
theorem ofSlots_template (t : UrlTemplate) : ofSlots.template t = t.slots := by
  obtain ⟨list⟩ := t
  change ofSlots.parts list = UrlTemplate.slots ⟨list⟩
  induction list with
  | nil => rfl
  | cons p rest ih =>
      rw [parts_cons, ih]
      cases p with
      | text s => rfl
      | slot name type => rfl
      | base default => rfl

/-! ## Documents -/

/-- The reading of the enclosing node that so many hops lead to, the nearest being one hop away. -/
def ancestor? (above : List (List α)) : Nat → Option (List α)
  | 0 => none
  | hops + 1 => above[hops]?

/-- The segments of a `$url`, given the readings of the enclosing nodes, nearest first. -/
def segments (r : Reading α) (above : List (List α)) : List Segment → Option (List α)
  | [] => some []
  | .literal s :: rest => (r.segments above rest).map (r.text s ++ ·)
  | .placeholder name spec :: rest =>
      (r.segments above rest).map (r.slot name spec.primitive ++ ·)
  | .reference hops attr :: rest =>
      if attr = "url" then
        (ancestor? above hops).bind fun own => (r.segments above rest).map (own ++ ·)
      else none

/-- The value of a `$url`, given the readings of the enclosing nodes. -/
def url (r : Reading α) (above : List (List α)) : Value → Option (List α)
  | .str s =>
      match Expression.parse s with
      | .error _ => none
      | .ok e => r.segments above e.segments
  | _ => none

/-- The readings of the `$url` values of a node and the nodes that enclose it, nearest first.  The
root's own `$url` is not among the values: its reading is the base. -/
def chain (r : Reading α) : List Value → Option (List (List α))
  | [] => some [r.base]
  | raw :: outer =>
      (r.chain outer).bind fun above => (r.url above raw).map (· :: above)

/-- Every value has its reading, and so has the root. -/
theorem length_of_chain {r : Reading α} {urls : List Value} {list : List (List α)}
    (h : r.chain urls = some list) : list.length = urls.length + 1 := by
  induction urls generalizing list with
  | nil =>
      cases h
      rfl
  | cons raw outer ih =>
      obtain ⟨above, habove, hmap⟩ := Option.bind_eq_some_iff.mp h
      obtain ⟨own, -, rfl⟩ := Option.map_eq_some_iff.mp hmap
      rw [List.length_cons, List.length_cons, ih habove]

/-- The reading of the first of the values, with references read through the others. -/
def direct (r : Reading α) (urls : List Value) : Option (List α) :=
  (r.chain urls).bind List.head?

end Reading
end ClientForge
