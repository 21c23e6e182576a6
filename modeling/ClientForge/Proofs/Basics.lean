import Mathlib.Data.List.Forall2
import Mathlib.Data.List.Nodup
import Mathlib.Data.List.Perm.Basic
/-!
# Answers and lists

Small facts about computations that may fail and about lists, shared by the proofs.
-/

namespace ClientForge

/-- A mapped computation answers exactly if the computation does. -/
theorem exceptMap_eq_ok_iff {ε α β : Type} {x : Except ε α} {f : α → β} {b : β} :
    x.map f = .ok b ↔ ∃ a, x = .ok a ∧ f a = b := by
  cases x with
  | error e => simp [Except.map]
  | ok a => simp [Except.map]

theorem exceptMap_eq_error_iff {ε α β : Type} {x : Except ε α} {f : α → β} {e : ε} :
    x.map f = .error e ↔ x = .error e := by
  cases x with
  | error e' => simp [Except.map]
  | ok a => simp [Except.map]

/-- What is mapped twice is mapped once. -/
theorem exceptMap_exceptMap {ε α β γ : Type} (x : Except ε α) (f : α → β) (g : β → γ) :
    (x.map f).map g = x.map fun a => g (f a) := by
  cases x with
  | error e => rfl
  | ok a => rfl

/-- Two computations in a row answer exactly if both do. -/
theorem exceptBind_eq_ok_iff {ε α β : Type} {x : Except ε α} {f : α → Except ε β} {b : β} :
    x >>= f = .ok b ↔ ∃ a, x = .ok a ∧ f a = .ok b := by
  cases x with
  | error e => simp [bind, Except.bind]
  | ok a => simp [bind, Except.bind]

/-- A computation whose answer passes a test answers. -/
theorem exists_eq_ok_of_any {ε α : Type} {x : Except ε α} {p : α → Bool}
    (h : x.toOption.any p = true) : ∃ a, x = .ok a ∧ p a = true := by
  cases x with
  | error e => simp [Except.toOption] at h
  | ok a => exact ⟨a, rfl, by simpa [Except.toOption] using h⟩

section Lists

variable {α β : Type}

theorem takeWhile_append_of_head? {p : α → Bool} {front rest : List α}
    (hfront : ∀ a ∈ front, p a = true) (hrest : ∀ a ∈ rest.head?, p a = false) :
    (front ++ rest).takeWhile p = front := by
  rw [List.takeWhile_append_of_pos hfront]
  cases rest with
  | nil => simp
  | cons a rest => simp [hrest a rfl]

theorem of_mem_head?_dropWhile {p : α → Bool} {list : List α} {a : α}
    (h : a ∈ (list.dropWhile p).head?) : p a = false := by
  have hnot := List.head?_dropWhile_not p list
  rw [Option.mem_def.mp h] at hnot
  exact hnot

theorem dropWhile_append_of_head? {p : α → Bool} {front rest : List α}
    (hfront : ∀ a ∈ front, p a = true) (hrest : ∀ a ∈ rest.head?, p a = false) :
    (front ++ rest).dropWhile p = rest := by
  rw [List.dropWhile_append_of_pos hfront]
  cases rest with
  | nil => rfl
  | cons a rest => simp [hrest a rfl]

/-- Every member of the left list has its partner on the right. -/
theorem exists_right_of_forall₂ {R : α → β → Prop} {as : List α} {bs : List β}
    (h : List.Forall₂ R as bs) {a : α} (ha : a ∈ as) : ∃ b ∈ bs, R a b := by
  induction h with
  | nil => cases ha
  | @cons x y as bs hxy _ ih =>
      rcases List.mem_cons.mp ha with rfl | ha
      · exact ⟨y, List.mem_cons_self, hxy⟩
      · obtain ⟨b, hb, hab⟩ := ih ha
        exact ⟨b, List.mem_cons_of_mem _ hb, hab⟩

/-- Every member of the right list has its partner on the left. -/
theorem exists_left_of_forall₂ {R : α → β → Prop} {as : List α} {bs : List β}
    (h : List.Forall₂ R as bs) {b : β} (hb : b ∈ bs) : ∃ a ∈ as, R a b := by
  induction h with
  | nil => cases hb
  | @cons x y as bs hxy _ ih =>
      rcases List.mem_cons.mp hb with rfl | hb
      · exact ⟨x, List.mem_cons_self, hxy⟩
      · obtain ⟨a, ha, hab⟩ := ih hb
        exact ⟨a, List.mem_cons_of_mem _ ha, hab⟩

/-- What stands at one place in both lists are partners. -/
theorem of_forall₂_getElem? {R : α → β → Prop} {as : List α} {bs : List β}
    (h : List.Forall₂ R as bs) {i : Nat} {a : α} {b : β} (ha : as[i]? = some a)
    (hb : bs[i]? = some b) : R a b := by
  induction h generalizing i with
  | nil => cases ha
  | cons hab _ ih =>
      cases i with
      | zero =>
          cases ha
          cases hb
          exact hab
      | succ i => exact ih ha hb

/-- Partners that always exist one by one exist together. -/
theorem exists_forall₂_of_forall_exists {R : α → β → Prop} {as : List α}
    (h : ∀ a ∈ as, ∃ b, R a b) : ∃ bs, List.Forall₂ R as bs := by
  induction as with
  | nil => exact ⟨[], List.Forall₂.nil⟩
  | cons a as ih =>
      obtain ⟨b, hb⟩ := h a List.mem_cons_self
      obtain ⟨bs, hbs⟩ := ih fun x hx => h x (List.mem_cons_of_mem _ hx)
      exact ⟨b :: bs, List.Forall₂.cons hb hbs⟩

/-- A list of groups that are computed one by one, in a row. -/
theorem collected_eq_ok_iff {ε : Type} {f : α → Except ε (List β)}
    {g : List α → Except ε (List β)} (hnil : g [] = .ok [])
    (hcons : ∀ a rest, g (a :: rest) = f a >>= fun own => g rest >>= fun others =>
      pure (own ++ others)) {as : List α} {all : List β} :
    g as = .ok all ↔
      ∃ groups, List.Forall₂ (fun a group => f a = .ok group) as groups ∧ all = groups.flatten := by
  induction as generalizing all with
  | nil =>
      rw [hnil, Except.ok.injEq]
      constructor
      · rintro rfl
        exact ⟨[], List.Forall₂.nil, rfl⟩
      · rintro ⟨groups, hgroups, rfl⟩
        rw [List.forall₂_nil_left_iff.mp hgroups, List.flatten_nil]
  | cons a rest ih =>
      rw [hcons, exceptBind_eq_ok_iff]
      constructor
      · rintro ⟨own, hown, h⟩
        obtain ⟨others, hothers, h⟩ := exceptBind_eq_ok_iff.mp h
        cases h
        obtain ⟨groups, hgroups, rfl⟩ := ih.mp hothers
        exact ⟨own :: groups, List.Forall₂.cons hown hgroups, rfl⟩
      · rintro ⟨groups, hgroups, rfl⟩
        obtain ⟨own, others, hown, hothers, rfl⟩ := List.forall₂_cons_left_iff.mp hgroups
        exact ⟨own, hown, exceptBind_eq_ok_iff.mpr ⟨_, ih.mpr ⟨others, hothers, rfl⟩, rfl⟩⟩

/-- What agrees for all partners agrees for the lists. -/
theorem map_eq_map_of_forall₂ {γ : Type} {R : α → β → Prop} {f : α → γ} {g : β → γ} {as : List α}
    {bs : List β} (h : List.Forall₂ R as bs) (hR : ∀ a b, R a b → f a = g b) :
    as.map f = bs.map g := by
  induction h with
  | nil => rfl
  | cons hab _ ih => rw [List.map_cons, List.map_cons, hR _ _ hab, ih]

/-- Where the keys are distinct, the one member with a given key is found. -/
theorem find?_eq_some_of_nodup {κ : Type} [DecidableEq κ] {key : α → κ} {as : List α} {a : α}
    (hnodup : (as.map key).Nodup) (ha : a ∈ as) : as.find? (fun x => key x = key a) = some a := by
  induction as with
  | nil => cases ha
  | cons x as ih =>
      rw [List.map_cons, List.nodup_cons] at hnodup
      rcases List.mem_cons.mp ha with rfl | ha
      · simp
      · have hne : key x ≠ key a := fun heq => hnodup.1 (heq ▸ List.mem_map_of_mem ha)
        rw [List.find?_cons_of_neg (by simpa using hne)]
        exact ih hnodup.2 ha

/-- Where the keys are distinct, nothing but the one member has a given key. -/
theorem filter_eq_singleton_of_nodup {κ : Type} [DecidableEq κ] {key : α → κ} {as : List α} {a : α}
    (hnodup : (as.map key).Nodup) (ha : a ∈ as) : as.filter (fun x => key x = key a) = [a] := by
  induction as with
  | nil => cases ha
  | cons x as ih =>
      rw [List.map_cons, List.nodup_cons] at hnodup
      rcases List.mem_cons.mp ha with rfl | ha
      · rw [List.filter_cons_of_pos (by simp), List.filter_eq_nil_iff.mpr]
        intro y hy heq
        exact hnodup.1 (of_decide_eq_true heq ▸ List.mem_map_of_mem hy)
      · have hne : key x ≠ key a := fun heq => hnodup.1 (heq ▸ List.mem_map_of_mem ha)
        rw [List.filter_cons_of_neg (by simpa using hne)]
        exact ih hnodup.2 ha

/-- A look-up fails exactly if the key does not occur. -/
theorem lookup_eq_none_iff_not_mem {κ : Type} [DecidableEq κ] {entries : List (κ × β)} {key : κ} :
    entries.lookup key = none ↔ key ∉ entries.map Prod.fst := by
  rw [List.lookup_eq_none_iff, List.mem_map]
  constructor
  · rintro habsent ⟨entry, hentry, rfl⟩
    simpa using habsent entry hentry
  · intro habsent entry hentry
    have hne : key ≠ entry.1 := fun heq => habsent ⟨entry, hentry, heq.symm⟩
    simpa using hne

/-- A search by key fails exactly if the key does not occur. -/
theorem find?_eq_none_iff_not_mem {κ : Type} [DecidableEq κ] {key : α → κ} {as : List α} {k : κ} :
    as.find? (fun x => key x = k) = none ↔ k ∉ as.map key := by
  rw [List.find?_eq_none, List.mem_map]
  constructor
  · rintro habsent ⟨a, ha, heq⟩
    exact habsent a ha (decide_eq_true heq)
  · intro habsent a ha heq
    exact habsent ⟨a, ha, of_decide_eq_true heq⟩

/-- Where one map tells things apart, so does another that merges less. -/
theorem nodup_map_of_nodup_map {γ : Type} {f : α → β} {g : α → γ} {as : List α}
    (hfg : ∀ a b, g a = g b → f a = f b) (h : (as.map f).Nodup) : (as.map g).Nodup := by
  rw [List.Nodup, List.pairwise_map] at h ⊢
  exact h.imp fun hne heq => hne (hfg _ _ heq)

/-! ## Names that are taken one by one -/

/-- Keys that differ from each other and from those taken before. -/
def Fresh (taken keys : List α) : Prop :=
  keys.Nodup ∧ ∀ key ∈ keys, key ∉ taken

@[simp] theorem fresh_nil_right (taken : List α) : Fresh taken [] := by
  simp [Fresh]

@[simp] theorem fresh_nil_left {keys : List α} : Fresh [] keys ↔ keys.Nodup := by
  simp [Fresh]

/-- The first key is new, and the others are once it is taken as well. -/
theorem fresh_cons_iff {taken keys : List α} {key : α} :
    Fresh taken (key :: keys) ↔ key ∉ taken ∧ Fresh (taken ++ [key]) keys := by
  unfold Fresh
  rw [List.nodup_cons, List.forall_mem_cons]
  constructor
  · rintro ⟨⟨hnew, hnodup⟩, hkey, hkeys⟩
    refine ⟨hkey, hnodup, ?_⟩
    intro k hk hmem
    rcases List.mem_append.mp hmem with hmem | hmem
    · exact hkeys k hk hmem
    · exact hnew (List.mem_singleton.mp hmem ▸ hk)
  · rintro ⟨hkey, hnodup, hkeys⟩
    refine ⟨⟨?_, hnodup⟩, hkey, ?_⟩
    · intro hmem
      exact hkeys key hmem (List.mem_append_right _ (List.mem_singleton.mpr rfl))
    · intro k hk hmem
      exact hkeys k hk (List.mem_append_left _ hmem)

/-- Keys in two groups are new if the first group is, and the second once the first is taken. -/
theorem fresh_append_iff {taken keys more : List α} :
    Fresh taken (keys ++ more) ↔ Fresh taken keys ∧ Fresh (taken ++ keys) more := by
  induction keys generalizing taken with
  | nil => simp
  | cons key keys ih =>
      rw [List.cons_append, fresh_cons_iff, fresh_cons_iff, ih, and_assoc, List.append_assoc]
      rfl

/-- New names are new in any order. -/
theorem fresh_of_perm {taken keys keys' : List α} (h : Fresh taken keys)
    (hperm : keys.Perm keys') : Fresh taken keys' :=
  ⟨hperm.nodup_iff.mp h.1, fun key hkey => h.2 key (hperm.mem_iff.mpr hkey)⟩

/-! ## Lists with the same keys -/

/-- Lists with the same keys in the same order agree in them place by place. -/
theorem forall₂_of_map_eq {κ : Type} {key : α → κ} {as bs : List α} (h : as.map key = bs.map key) :
    List.Forall₂ (fun a b => (a ∈ as ∧ b ∈ bs) ∧ key a = key b) as bs := by
  have hsame : List.Forall₂ (· = ·) (as.map key) (bs.map key) := by
    rw [List.forall₂_eq_eq_eq]
    exact h
  have hmatch : List.Forall₂ (fun a b => key a = key b) as bs :=
    List.forall₂_map_left_iff.mp (List.forall₂_map_right_iff.mp hsame)
  rw [List.forall₂_iff_zip] at hmatch ⊢
  exact ⟨hmatch.1, fun hmem => ⟨List.of_mem_zip hmem, hmatch.2 hmem⟩⟩

/-- Of two lists with the same keys the second can be put in the order of the first. -/
theorem exists_perm_of_map_perm {κ : Type} {key : α → κ} {as bs : List α}
    (h : (as.map key).Perm (bs.map key)) :
    ∃ cs, List.Forall₂ (fun a c => (a ∈ as ∧ c ∈ cs) ∧ key a = key c) as cs ∧ cs.Perm bs := by
  obtain ⟨cs, hkeys, hperm⟩ :
      Relation.Comp (fun ks cs => ks = List.map key cs) List.Perm (as.map key) bs := by
    rw [List.eq_map_comp_perm]
    exact h
  exact ⟨cs, forall₂_of_map_eq hkeys, hperm⟩

/-- Two lists of partners have partners in common if any two single ones do. -/
theorem exists_forall₂_of_forall₂ {γ δ : Type} {P : α → β → Prop} {Q : α → γ → Prop}
    {R : β → δ → Prop} {S : γ → δ → Prop} {as : List α} {bs : List β} {cs : List γ}
    (hbs : List.Forall₂ P as bs) (hcs : List.Forall₂ Q as cs)
    (h : ∀ a b c, P a b → Q a c → ∃ d, R b d ∧ S c d) :
    ∃ ds, List.Forall₂ R bs ds ∧ List.Forall₂ S cs ds := by
  induction hbs generalizing cs with
  | nil =>
      rw [List.forall₂_nil_left_iff.mp hcs]
      exact ⟨[], List.Forall₂.nil, List.Forall₂.nil⟩
  | cons hab _ ih =>
      obtain ⟨c, rest, hac, hrest, rfl⟩ := List.forall₂_cons_left_iff.mp hcs
      obtain ⟨d, hbd, hcd⟩ := h _ _ _ hab hac
      obtain ⟨ds, hbs, hcs⟩ := ih hrest
      exact ⟨d :: ds, List.Forall₂.cons hbd hbs, List.Forall₂.cons hcd hcs⟩

end Lists
end ClientForge
