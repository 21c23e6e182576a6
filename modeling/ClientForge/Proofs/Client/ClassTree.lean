import ClientForge.Proofs.Client.Outcome
import ClientForge.Proofs.Schema.Key
import ClientForge.Proofs.Schema.Reach
/-!
# Classes of a module

A class is found by its name, and its parent by the name in its constructor.  `Module.ancestor?`
follows these links.  In an assembled module every class stands as many links below the root class
as names lead to its set (`Assembles.exists_class`), and no two classes have one path
(`Assembles.nodup_paths`).
-/

namespace ClientForge

namespace Module

/-- The class with a given name. -/
def classNamed? (m : Module) (name : String) : Option ClassDecl :=
  m.classes.find? (·.name = name)

/-- The class that so many links to the parent lead to. -/
def ancestor? (m : Module) : Nat → ClassDecl → Option ClassDecl
  | 0, c => some c
  | hops + 1, c =>
      (c.constructor.parentClass.bind m.classNamed?).bind (m.ancestor? hops)

end Module

namespace Assembly

open Naming

namespace Assembles

variable {language : Language} {config : Config} {client : Client} {m : Module}

/-- The names of the classes, in the order of the sets. -/
theorem map_name (h : Assembles language config client m) :
    m.classes.map ClassDecl.name =
      (client.root.visits []).map fun visit => className client.className visit.1 :=
  (map_eq_map_of_forall₂ h.classes fun _ _ hdecl => hdecl.name_eq.symm).symm

/-- The paths of the classes, in the order of the sets. -/
theorem map_path (h : Assembles language config client m) :
    m.classes.map ClassDecl.path =
      (client.root.visits []).map fun visit => KeyPath.dotted visit.2.path :=
  (map_eq_map_of_forall₂ h.classes fun _ _ hdecl => hdecl.path_eq.symm).symm

/-- A class of the module is found by its name. -/
theorem classNamed?_name (h : Assembles language config client m) {c : ClassDecl}
    (hc : c ∈ m.classes) : m.classNamed? c.name = some c := by
  have hnodup : (m.classes.map ClassDecl.name).Nodup := h.map_name ▸ h.nodup
  exact find?_eq_some_of_nodup hnodup hc

/-- Every set has its class, and the links to the parents lead from there to the root class in as
many steps as there are names. -/
theorem exists_class (h : Assembles language config client m) {names : List String}
    {set : ApiSet} (hvisit : (names, set) ∈ client.root.visits []) :
    ∃ c ∈ m.classes,
      BuildsClass (styleOf language) client.className names
        (constructorAt client.className (rootConstructor client.url) names) set c ∧
      ∃ top, m.ancestor? names.length c = some top ∧ top.isRoot = true := by
  refine (ApiSet.forall_mem_visits (P := fun names set => (names, set) ∈ client.root.visits [] ∧
    ∃ c ∈ m.classes, BuildsClass (styleOf language) client.className names
      (constructorAt client.className (rootConstructor client.url) names) set c ∧
      ∃ top, m.ancestor? names.length c = some top ∧ top.isRoot = true) ?_ client.root [] ?_
    (names, set) hvisit).2
  · rintro names set ⟨hset, parent, hparent, hbuilds, top, hancestor, htop⟩ child hchild
    have hbelow := ApiSet.mem_visits_of_mem_sets hset hchild
    obtain ⟨c, hc, hdecl⟩ := exists_right_of_forall₂ h.classes hbelow
    refine ⟨hbelow, c, hc, hdecl, top, ?_, htop⟩
    -- the link of the new class names the class of the set around it, which is found by its name
    have hlink : c.constructor.parentClass = some parent.name := by
      rw [hdecl.constructor_eq, constructorAt_concat, hbuilds.name_eq]
    rw [List.length_append, List.length_singleton, Module.ancestor?, hlink, Option.bind_some,
      h.classNamed?_name hparent]
    exact hancestor
  · have hroot := ApiSet.mem_visits_self [] client.root
    obtain ⟨c, hc, hdecl⟩ := exists_right_of_forall₂ h.classes hroot
    refine ⟨hroot, c, hc, hdecl, c, rfl, ?_⟩
    rw [ClassDecl.isRoot, hdecl.constructor_eq]
    rfl

/-- No two classes stand for sets with one path. -/
theorem nodup_paths {asked : Option String} {root : Schema.Entries} {members : List Schema.Member}
    (h : Assembles language config client m)
    (hclient : Schema.BindsClient asked root members client) :
    (m.classes.map ClassDecl.path).Nodup := by
  rw [h.map_path]
  refine List.Nodup.map_on ?_ (List.Nodup.of_map _ h.nodup)
  intro visit hvisit visit' hvisit' hpath
  obtain ⟨keys, _, _, _, _, _, -, hset, hnames, hkeys⟩ :=
    Schema.exists_reaches_of_visit hclient hvisit
  obtain ⟨keys', _, _, _, _, _, -, hset', hnames', hkeys'⟩ :=
    Schema.exists_reaches_of_visit hclient hvisit'
  rw [hset.path_eq, hset'.path_eq] at hpath
  have heq : keys = keys' :=
    KeyPath.dotted_inj (fun key hkey => Schema.undotted_of_isSet (hkeys key hkey))
      (fun key hkey => Schema.undotted_of_isSet (hkeys' key hkey)) hpath
  -- one chain of keys is one chain of names, and the class names tell those apart
  refine List.inj_on_of_nodup_map h.nodup hvisit hvisit' ?_
  rw [hnames, hnames', heq]

end Assembles

end Assembly
end ClientForge
