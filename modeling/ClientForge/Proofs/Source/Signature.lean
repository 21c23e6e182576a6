import ClientForge.Source.PythonText
import Mathlib.Data.List.Basic
/-!
# Signatures of Python functions

In a Python function no required parameter may follow one with a default, unless it is passed by
keyword.  Defaults of the positional parameters are kept in a list of their own, which belongs to
the last of them.

A step of the split takes a parameter over or stops before it (`splitArguments_cons_some` and the
two equations after it).  So it leaves required parameters first and those with a default after them
(`exists_positional_eq`), which is why defaults aligned from the right meet their own parameters
(`alignRight_filterMap`); and it stops only where it has to (`of_keywordOnly_eq_cons`).
-/

namespace ClientForge
namespace Source
namespace PythonText

/-! ## Steps of the split -/

/-- A parameter with a default is positional, and from then on a default was seen. -/
theorem splitArguments_cons_some {a : Argument} {value : Literal} (h : a.default = some value)
    (seen : Bool) (rest : List Argument) :
    splitArguments seen (a :: rest) =
      (a :: (splitArguments true rest).1, (splitArguments true rest).2) := by
  simp [splitArguments, h]

/-- A required parameter before any default is positional. -/
theorem splitArguments_false_cons_none {a : Argument} (h : a.default = none)
    (rest : List Argument) :
    splitArguments false (a :: rest) =
      (a :: (splitArguments false rest).1, (splitArguments false rest).2) := by
  simp [splitArguments, h]

/-- A required parameter after a default ends the positional ones. -/
theorem splitArguments_true_cons_none {a : Argument} (h : a.default = none)
    (rest : List Argument) : splitArguments true (a :: rest) = ([], a :: rest) := by
  simp [splitArguments, h]

/-- What holds of the split of no parameters and is kept by each kind of step holds of all. -/
theorem splitArguments_induction
    {P : Bool → List Argument → List Argument × List Argument → Prop}
    (nil : ∀ seen, P seen [] ([], []))
    (defaulted : ∀ seen a rest value out, a.default = some value → P true rest out →
      P seen (a :: rest) (a :: out.1, out.2))
    (required : ∀ a rest out, a.default = none → P false rest out →
      P false (a :: rest) (a :: out.1, out.2))
    (late : ∀ a rest, a.default = none → P true (a :: rest) ([], a :: rest))
    (seen : Bool) (list : List Argument) : P seen list (splitArguments seen list) := by
  induction list generalizing seen with
  | nil => exact nil seen
  | cons a rest ih =>
      cases hdefault : a.default with
      | some value =>
          rw [splitArguments_cons_some hdefault]
          exact defaulted seen a rest value _ hdefault (ih true)
      | none =>
          cases seen with
          | false =>
              rw [splitArguments_false_cons_none hdefault]
              exact required a rest _ hdefault (ih false)
          | true =>
              rw [splitArguments_true_cons_none hdefault]
              exact late a rest hdefault

/-- Nothing is lost in the split, and the order is kept. -/
theorem splitArguments_append (seen : Bool) (list : List Argument) :
    (splitArguments seen list).1 ++ (splitArguments seen list).2 = list := by
  refine splitArguments_induction (P := fun _ list out => out.1 ++ out.2 = list) ?_ ?_ ?_ ?_
    seen list
  · exact fun _ => rfl
  · exact fun _ a _ _ _ _ ih => congrArg (a :: ·) ih
  · exact fun a _ _ _ ih => congrArg (a :: ·) ih
  · exact fun _ _ _ => rfl

/-- The positional parameters are required ones and then some with a default; once a default was
seen, there are no required ones among them. -/
theorem exists_positional_eq (seen : Bool) (list : List Argument) :
    ∃ required defaulted, (splitArguments seen list).1 = required ++ defaulted ∧
      (∀ a ∈ required, a.default = none) ∧ (∀ a ∈ defaulted, a.default.isSome = true) ∧
      (seen = true → required = []) := by
  refine splitArguments_induction (P := fun seen _ out => ∃ required defaulted,
    out.1 = required ++ defaulted ∧ (∀ a ∈ required, a.default = none) ∧
      (∀ a ∈ defaulted, a.default.isSome = true) ∧ (seen = true → required = [])) ?_ ?_ ?_ ?_
    seen list
  · exact fun _ => ⟨[], [], rfl, by simp, by simp, fun _ => rfl⟩
  · rintro _ a _ value out hvalue ⟨required, defaulted, heq, -, hdefaulted, hseen⟩
    rw [hseen rfl, List.nil_append] at heq
    have hsome : a.default.isSome = true := by rw [hvalue, Option.isSome_some]
    exact ⟨[], a :: defaulted, congrArg (a :: ·) heq, by simp,
      List.forall_mem_cons.mpr ⟨hsome, hdefaulted⟩, fun _ => rfl⟩
  · rintro a _ out hnone ⟨required, defaulted, heq, hrequired, hdefaulted, -⟩
    exact ⟨a :: required, defaulted, congrArg (a :: ·) heq,
      List.forall_mem_cons.mpr ⟨hnone, hrequired⟩, hdefaulted, fun h => by cases h⟩
  · exact fun _ _ _ => ⟨[], [], rfl, by simp, by simp, fun _ => rfl⟩

/-- The split stops at a required parameter, and only after a default. -/
theorem of_keywordOnly_eq_cons {seen : Bool} {list rest : List Argument} {a : Argument}
    (h : (splitArguments seen list).2 = a :: rest) :
    a.default = none ∧
      (seen = true ∨ ∃ b ∈ (splitArguments seen list).1, b.default.isSome = true) := by
  refine splitArguments_induction (P := fun seen _ out => out.2 = a :: rest →
    a.default = none ∧ (seen = true ∨ ∃ b ∈ out.1, b.default.isSome = true)) ?_ ?_ ?_ ?_
    seen list h
  · intro _ hnil
    cases hnil
  · intro _ b _ value out hvalue ih hrest
    have hsome : b.default.isSome = true := by rw [hvalue, Option.isSome_some]
    exact ⟨(ih hrest).1, Or.inr ⟨b, List.mem_cons_self, hsome⟩⟩
  · intro b _ out _ ih hrest
    obtain ⟨hnone, hbefore⟩ := ih hrest
    obtain ⟨c, hc, hsome⟩ := hbefore.resolve_left Bool.false_ne_true
    exact ⟨hnone, Or.inr ⟨c, List.mem_cons_of_mem _ hc, hsome⟩⟩
  · intro b _ hnone hrest
    cases hrest
    exact ⟨hnone, Or.inl rfl⟩

/-! ## Defaults -/

theorem map_some_filterMap {list : List Argument} (h : ∀ a ∈ list, a.default.isSome = true) :
    (list.filterMap (·.default)).map some = list.map (·.default) := by
  induction list with
  | nil => rfl
  | cons a rest ih =>
      rw [List.forall_mem_cons] at h
      obtain ⟨value, hvalue⟩ := Option.isSome_iff_exists.mp h.1
      rw [List.filterMap_cons_some hvalue, List.map_cons, List.map_cons, ih h.2, hvalue]

/-- The defaults of parameters, aligned from the right, meet their own parameters if the required
ones come first. -/
theorem alignRight_filterMap {required defaulted : List Argument}
    (hrequired : ∀ a ∈ required, a.default = none)
    (hdefaulted : ∀ a ∈ defaulted, a.default.isSome = true) :
    alignRight (required ++ defaulted).length ((required ++ defaulted).filterMap (·.default)) =
      (required ++ defaulted).map (·.default) := by
  have hmap := map_some_filterMap hdefaulted
  have hlength := congrArg List.length hmap
  rw [List.length_map, List.length_map] at hlength
  have hnone : required.map (·.default) = List.replicate required.length none :=
    List.map_eq_replicate_iff.mpr hrequired
  rw [List.filterMap_append, List.filterMap_eq_nil_iff.mpr hrequired, List.nil_append, alignRight,
    List.length_append, hlength, Nat.add_sub_cancel, hmap, List.map_append, hnone]

/-! ## Signatures -/

/-- No required parameter after one with a default. -/
def DefaultsLast (list : List Argument) : Prop :=
  list.Pairwise fun a b => a.default.isSome = true → b.default.isSome = true

/-- The parameter at a position is required although one before it has a default. -/
def RequiredLate (list : List Argument) (i : Nat) : Prop :=
  ∃ a, list[i]? = some a ∧ a.default = none ∧ ∃ b ∈ list.take i, b.default.isSome = true

theorem defaultsLast_append {required defaulted : List Argument}
    (hrequired : ∀ a ∈ required, a.default = none)
    (hdefaulted : ∀ a ∈ defaulted, a.default.isSome = true) :
    DefaultsLast (required ++ defaulted) := by
  refine List.pairwise_append.mpr ⟨?_, ?_, fun _ _ b hb _ => hdefaulted b hb⟩
  · refine List.pairwise_of_forall_mem_list fun a ha _ _ hsome => ?_
    rw [hrequired a ha] at hsome
    cases hsome
  · exact List.pairwise_of_forall_mem_list fun _ _ b hb _ => hdefaulted b hb

/-- Where defaults come last, no required parameter is late. -/
theorem not_requiredLate_of_lt {front rest : List Argument} (h : DefaultsLast front) {i : Nat}
    (hi : i < front.length) : ¬ RequiredLate (front ++ rest) i := by
  rintro ⟨a, ha, hnone, b, hb, hsome⟩
  rw [List.getElem?_append_left hi] at ha
  rw [List.take_append_of_le_length (Nat.le_of_lt hi)] at hb
  have hdrop : a ∈ front.drop i := by
    refine List.mem_of_getElem? (i := 0) ?_
    rw [List.getElem?_drop]
    exact ha
  rw [DefaultsLast, ← List.take_append_drop i front, List.pairwise_append] at h
  have hlater := h.2.2 b hb a hdrop hsome
  rw [hnone] at hlater
  cases hlater

/-- The first parameter that is passed by keyword is required and late. -/
theorem requiredLate_length_positional {list : List Argument}
    (h : (signature list).positional.length < list.length) :
    RequiredLate list (signature list).positional.length := by
  have happend : (signature list).positional ++ (signature list).keywordOnly = list :=
    splitArguments_append false list
  obtain ⟨a, rest, heq⟩ : ∃ a rest, (signature list).keywordOnly = a :: rest := by
    refine List.exists_cons_of_ne_nil fun hnil => ?_
    rw [hnil, List.append_nil] at happend
    exact absurd (congrArg List.length happend) (Nat.ne_of_lt h)
  have hsplit : (splitArguments false list).2 = a :: rest := heq
  obtain ⟨hnone, hbefore⟩ := of_keywordOnly_eq_cons hsplit
  -- the parameter and those before it, looked up in the list that was split
  have hget : list[(signature list).positional.length]? = some a := by
    have hfirst : ((signature list).positional ++ a :: rest)[(signature list).positional.length]? =
        some a := by
      simp
    rwa [← heq, happend] at hfirst
  have htake : list.take (signature list).positional.length = (signature list).positional := by
    have hfront : ((signature list).positional ++ (signature list).keywordOnly).take
        (signature list).positional.length = (signature list).positional := List.take_left
    rwa [happend] at hfront
  refine ⟨a, hget, hnone, ?_⟩
  rw [htake]
  exact hbefore.resolve_left Bool.false_ne_true

/-- A signature is legal and gives every parameter its own default.  It has all parameters in their
order; the positional ones have no required one after a default; their defaults, of which none is
left over for the receiver, are aligned from the right with the parameters they belong to; those
passed by keyword have theirs one by one; and a parameter is passed by keyword exactly if it or one
before it is required after a default. -/
theorem signature_legal (list : List Argument) :
    (signature list).positional ++ (signature list).keywordOnly = list ∧
      DefaultsLast (signature list).positional ∧
      (signature list).defaults.length ≤ (signature list).positional.length ∧
      alignRight (signature list).positional.length (signature list).defaults =
        (signature list).positional.map (·.default) ∧
      (signature list).keywordDefaults = (signature list).keywordOnly.map (·.default) ∧
      ∀ i < list.length, (signature list).positional.length ≤ i ↔ ∃ j ≤ i, RequiredLate list j := by
  obtain ⟨required, defaulted, heq, hrequired, hdefaulted, -⟩ := exists_positional_eq false list
  have hpositional : (signature list).positional = required ++ defaulted := heq
  have hdefaults : (signature list).defaults =
      (signature list).positional.filterMap (·.default) := rfl
  have happend : (signature list).positional ++ (signature list).keywordOnly = list :=
    splitArguments_append false list
  have hlast : DefaultsLast (signature list).positional := by
    rw [hpositional]
    exact defaultsLast_append hrequired hdefaulted
  refine ⟨happend, hlast, ?_, ?_, rfl, fun i hi => ⟨fun hle => ?_, ?_⟩⟩
  · rw [hdefaults]
    exact List.length_filterMap_le _ _
  · rw [hdefaults, hpositional]
    exact alignRight_filterMap hrequired hdefaulted
  · exact ⟨_, hle, requiredLate_length_positional (Nat.lt_of_le_of_lt hle hi)⟩
  · rintro ⟨j, hj, hlate⟩
    by_contra hlt
    rw [← happend] at hlate
    exact not_requiredLate_of_lt hlast (by omega) hlate

end PythonText
end Source
end ClientForge
