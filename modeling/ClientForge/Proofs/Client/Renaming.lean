import ClientForge.Proofs.Client.Outcome
import ClientForge.Proofs.Schema.BaseDefault
/-!
# Clients under another name

The name of a client is the beginning of the names of all its classes, and it is nothing else.
`Module.renamed` gives every class name of a module another beginning and keeps all the rest.
Binding never looks at the name (`BindsClient.renamed`).  Assembly compares class names, but two of
them with one beginning agree exactly if they agree behind it, so a name that looks like the path of
a set makes no difference (`Assembles.renamed`).
-/

namespace ClientForge

/-! ## Names with another beginning -/

/-- A text that begins with the old text, with the new one in its place. -/
def reheaded (old new text : String) : String :=
  if old.toList <+: text.toList then new ++ String.ofList (text.toList.drop old.length) else text

theorem reheaded_append (old new rest : String) : reheaded old new (old ++ rest) = new ++ rest := by
  rw [reheaded, String.toList_append, if_pos (List.prefix_append _ _), ← String.length_toList,
    List.drop_left, String.ofList_toList]

namespace Naming

theorem reheaded_className (old new : String) (names : List String) :
    reheaded old new (className old names) = className new names :=
  reheaded_append old new _

/-- Class names agree exactly if they agree behind the name of the client. -/
theorem className_eq_iff (old new : String) {names names' : List String} :
    className old names = className old names' ↔ className new names = className new names' := by
  simp only [className, ← String.toList_inj, String.toList_append, List.append_cancel_left_eq]

end Naming

/-! ## Modules and clients -/

/-- A constructor that takes the parent under its new name. -/
def Constructor.renamed (old new : String) (c : Constructor) : Constructor :=
  { c with parentClass := c.parentClass.map (reheaded old new) }

/-- An accessor that makes a client under its new name. -/
def Accessor.renamed (old new : String) (a : Accessor) : Accessor :=
  { a with className := reheaded old new a.className }

/-- A class in which all class names have a new beginning. -/
def ClassDecl.renamed (old new : String) (c : ClassDecl) : ClassDecl :=
  { c with
    name := reheaded old new c.name
    constructor := c.constructor.renamed old new
    accessors := c.accessors.map (Accessor.renamed old new) }

/-- A module in which all class names have a new beginning. -/
def Module.renamed (old new : String) (m : Module) : Module :=
  { m with
    rootClass := reheaded old new m.rootClass
    classes := m.classes.map (ClassDecl.renamed old new) }

/-- The class names that a class mentions. -/
def ClassDecl.classNames (c : ClassDecl) : List String :=
  c.name :: c.constructor.parentClass.toList ++ c.accessors.map Accessor.className

/-- The class names that a module mentions. -/
def Module.classNames (m : Module) : List String :=
  m.rootClass :: m.classes.flatMap ClassDecl.classNames

/-- A client under another name. -/
def Client.renamed (new : String) (client : Client) : Client :=
  ⟨new, client.url, { client.root with name := new }⟩

namespace Schema

/-! ## Binding -/

/-- A class name that may be used is the one that is chosen. -/
theorem readClassName_chooseClassName {name : String} (h : SchemaName.isClassName name = true)
    (own : Value) : readClassName (chooseClassName (some name) own) = .ok name := by
  have hne : name ≠ "" := by
    rintro rfl
    cases h
  rw [chooseClassName, if_pos hne]
  exact readClassName_eq_ok_iff.mpr ⟨rfl, h⟩

theorem resolve_clientScope (name name' : String) (hops : Nat) (attr : String) :
    Scope.resolve [clientScope name] hops attr = Scope.resolve [clientScope name'] hops attr := by
  cases hops with
  | zero => rfl
  | succ hops => simp [Scope.resolve, Scope.climb]

theorem checkRootSegments_clientScope (name name' : String) (list : List Segment) :
    checkRootSegments (clientScope name) list = checkRootSegments (clientScope name') list := by
  induction list with
  | nil => rfl
  | cons segment rest ih =>
      cases segment with
      | literal s => exact ih
      | placeholder name spec => rfl
      | reference hops attr =>
          rw [checkRootSegments, checkRootSegments, resolve_clientScope name name', ih]

/-- The root URL is read alike under every name. -/
theorem readRootUrl_clientScope (name name' : String) (raw : Value) :
    readRootUrl (clientScope name) raw = readRootUrl (clientScope name') raw := by
  cases raw with
  | str s =>
      unfold readRootUrl
      dsimp only
      cases Expression.parse s with
      | error fault => rfl
      | ok e =>
          dsimp only
          rw [checkRootSegments_clientScope name name']
  | _ => rfl

/-- Under another name a document is bound to the same client with that name. -/
theorem BindsClient.renamed {asked : Option String} {entries : Entries} {members : List Member}
    {client : Client} (h : BindsClient asked entries members client) {new : String}
    (hnew : SchemaName.isClassName new = true) :
    BindsClient (some new) entries members (client.renamed new) where
  keys := h.keys
  className := readClassName_chooseClassName hnew _
  url := (readRootUrl_clientScope new client.className _).trans h.url
  nested := by
    have hscope : ∀ name, (clientScope name).attributes = [] := fun _ => rfl
    -- the scopes hold the same attributes, markers included
    have hsame := SameAttributes.assign (f := id) List.Forall₂.nil (hscope client.className)
      (hscope new) ⟨[.base client.url]⟩
    have hmembers := bindMembers_mapBase hsame h.nested
    rw [UrlTemplate.mapBase_id, List.map_congr_left fun member _ => member.mapBase_id,
      List.map_id'] at hmembers
    exact hmembers
  root_eq := by
    rw [Client.renamed, h.root_eq]

theorem bindDocument_renamed {document : Value} {asked : Option String} {client : Client}
    (h : (bindDocument document asked).result = .ok client) {new : String}
    (hnew : SchemaName.isClassName new = true) :
    (bindDocument document (some new)).result = .ok (client.renamed new) := by
  obtain ⟨entries, members, rfl, hclient⟩ := bindDocument_eq_ok_iff.mp h
  exact bindDocument_eq_ok_iff.mpr ⟨entries, members, rfl, hclient.renamed hnew⟩

end Schema

namespace Assembly

open Naming

/-! ## Assembly -/

theorem constructorAt_renamed (old new : String) (url : Option String) (names : List String) :
    (constructorAt old (rootConstructor url) names).renamed old new =
      constructorAt new (rootConstructor url) names := by
  cases names with
  | nil => rfl
  | cons name names =>
      rw [constructorAt, constructorAt, Constructor.renamed, Option.map_some, reheaded_className]

/-- A class is built from the same set under another name. -/
theorem BuildsClass.renamed {style : Style} {old : String} {names : List String}
    {ctor : Constructor} {set : ApiSet} {c : ClassDecl}
    (h : BuildsClass style old names ctor set c) (new : String) :
    BuildsClass style new names (ctor.renamed old new) set (c.renamed old new) where
  name_eq := by
    rw [ClassDecl.renamed, h.name_eq, reheaded_className]
  path_eq := h.path_eq
  constructor_eq := congrArg (Constructor.renamed old new) h.constructor_eq
  accessors_eq := by
    rw [ClassDecl.renamed, h.accessors_eq, List.map_map]
    refine List.map_congr_left fun child _ => ?_
    rw [Function.comp_apply, Accessor.renamed, accessorOf, accessorOf, reheaded_className]
  nodup := h.nodup
  methods := h.methods

theorem BuildsClass.renamed_constructorAt {style : Style} {old : String} {url : Option String}
    {names : List String} {set : ApiSet} {c : ClassDecl}
    (h : BuildsClass style old names (constructorAt old (rootConstructor url) names) set c)
    (new : String) :
    BuildsClass style new names (constructorAt new (rootConstructor url) names) set
      (c.renamed old new) := by
  rw [← constructorAt_renamed old new]
  exact h.renamed new

/-- The class of a set does not depend on the set's own name. -/
theorem BuildsClass.withName {style : Style} {rootName : String} {names : List String}
    {ctor : Constructor} {set : ApiSet} {c : ClassDecl}
    (h : BuildsClass style rootName names ctor set c) (name : String) :
    BuildsClass style rootName names ctor { set with name := name } c :=
  ⟨h.name_eq, h.path_eq, h.constructor_eq, h.accessors_eq, h.nodup, h.methods⟩

/-- Under another name a client is assembled to the same module with that name. -/
theorem Assembles.renamed {language : Language} {config : Config} {client : Client} {m : Module}
    (h : Assembles language config client m) (new : String) :
    Assembles language config (client.renamed new) (m.renamed client.className new) := by
  -- the root is the only set that has another name, and its name leads to no class
  have hvisits : (client.renamed new).root.visits [] =
      ([], { client.root with name := new }) :: ApiSet.visitsAll [] client.root.sets :=
    ApiSet.visits_eq [] _
  have hnames : ((client.renamed new).root.visits []).map Prod.fst =
      (client.root.visits []).map Prod.fst := by
    rw [hvisits, ApiSet.visits_eq]
    rfl
  refine ⟨h.language_eq, ?_, h.comment_eq, ?_, ?_⟩
  · have hroot : reheaded client.className new client.className = new := by
      simpa [className] using reheaded_className client.className new []
    rw [Module.renamed, h.rootClass_eq]
    exact hroot
  · have hold := h.nodup
    rw [← Function.comp_def (className client.className), ← List.map_map] at hold
    rw [← Function.comp_def (className (client.renamed new).className), ← List.map_map, hnames]
    exact nodup_map_of_nodup_map (fun _ _ => (className_eq_iff client.className new).mpr) hold
  · have hclasses := h.classes
    rw [ApiSet.visits_eq] at hclasses
    obtain ⟨first, rest, hfirst, hrest, heq⟩ := List.forall₂_cons_left_iff.mp hclasses
    rw [hvisits, Module.renamed, heq, List.map_cons]
    refine List.Forall₂.cons ((hfirst.renamed_constructorAt new).withName new) ?_
    exact List.forall₂_map_right_iff.mpr
      (hrest.imp fun _ _ hclass => hclass.renamed_constructorAt new)

/-- All class names of a module begin with the name of the client. -/
theorem Assembles.prefix_of_mem_classNames {language : Language} {config : Config}
    {client : Client} {m : Module} (h : Assembles language config client m) {name : String}
    (hname : name ∈ m.classNames) : client.className.toList <+: name.toList := by
  have hclassName : ∀ names, client.className.toList <+:
      (className client.className names).toList := by
    intro names
    rw [className, String.toList_append]
    exact List.prefix_append _ _
  rcases List.mem_cons.mp hname with rfl | hname
  · exact h.rootClass_eq ▸ List.prefix_rfl
  · obtain ⟨c, hc, hname⟩ := List.mem_flatMap.mp hname
    obtain ⟨visit, -, hclass⟩ := exists_left_of_forall₂ h.classes hc
    rcases List.mem_append.mp hname with hown | haccessor
    · rcases List.mem_cons.mp hown with rfl | hparent
      · rw [hclass.name_eq]
        exact hclassName visit.1
      · rw [hclass.constructor_eq] at hparent
        cases hnames : visit.1 with
        | nil =>
            rw [hnames] at hparent
            cases hparent
        | cons first names =>
            rw [hnames, constructorAt, Option.toList_some, List.mem_singleton] at hparent
            rw [hparent]
            exact hclassName _
    · rw [hclass.accessors_eq, List.map_map] at haccessor
      obtain ⟨child, -, rfl⟩ := List.mem_map.mp haccessor
      exact hclassName _

end Assembly

open Schema Assembly in
/-- Under two names a document can be bound both times or neither, the clients can be assembled to
any language both or neither, and the second module is the first one with the second name in place
of the first at the beginning of every class name. -/
theorem bind_assemble_renamed (document : Value) (config : Config) (first second : String)
    (hfirst : SchemaName.isClassName first = true)
    (hsecond : SchemaName.isClassName second = true) :
    ((∃ client, (bindDocument document (some first)).result = .ok client) ↔
      ∃ client, (bindDocument document (some second)).result = .ok client) ∧
    ∀ client client', (bindDocument document (some first)).result = .ok client →
      (bindDocument document (some second)).result = .ok client' →
      ∀ language,
        ((∃ m, assemble language config client = .ok m) ↔
          ∃ m, assemble language config client' = .ok m) ∧
        ∀ m m', assemble language config client = .ok m →
          assemble language config client' = .ok m' →
          (∀ name ∈ m.classNames, first.toList <+: name.toList) ∧ m' = m.renamed first second := by
  refine ⟨⟨?_, ?_⟩, ?_⟩
  · rintro ⟨client, hbind⟩
    exact ⟨_, bindDocument_renamed hbind hsecond⟩
  · rintro ⟨client, hbind⟩
    exact ⟨_, bindDocument_renamed hbind hfirst⟩
  · intro client client' hbind hbind' language
    obtain rfl : client' = client.renamed second :=
      Except.ok.inj (hbind'.symm.trans (bindDocument_renamed hbind hsecond))
    have hback : client = (client.renamed second).renamed first :=
      Except.ok.inj (hbind.symm.trans (bindDocument_renamed hbind' hfirst))
    have hname : client.className = first := congrArg Client.className hback
    have hforth : ∀ m, assemble language config client = .ok m →
        assemble language config (client.renamed second) = .ok (m.renamed first second) := by
      intro m hm
      rw [← hname]
      exact assemble_eq_ok_iff.mpr ((assemble_eq_ok_iff.mp hm).renamed second)
    refine ⟨⟨?_, ?_⟩, ?_⟩
    · rintro ⟨m, hm⟩
      exact ⟨_, hforth m hm⟩
    · rintro ⟨m, hm⟩
      rw [hback]
      exact ⟨_, assemble_eq_ok_iff.mpr ((assemble_eq_ok_iff.mp hm).renamed first)⟩
    · intro m m' hm hm'
      refine ⟨fun name hmem => ?_, Except.ok.inj (hm'.symm.trans (hforth m hm))⟩
      rw [← hname]
      exact (assemble_eq_ok_iff.mp hm).prefix_of_mem_classNames hmem

/-- A set of users in a set of users. -/
def usersDocument : Value :=
  .map [(.str "$url", .str "http://h"),
    (.str "~users", .map
      [(.str "$url", .str "$\x7b!super\x7d/users/<id>"),
       (.str "~users", .map [(.str "$url", .str "$\x7b!super\x7d/users"), (.str "list", .null)])])]

open Schema Assembly in
/-- The second name is that of a class under the first. -/
theorem bind_assemble_renamed_users : ∃ client client' m m',
    (bindDocument usersDocument (some "Users")).result = .ok client ∧
    (bindDocument usersDocument (some "UsersUsers")).result = .ok client' ∧
    assemble .python {} client = .ok m ∧ assemble .python {} client' = .ok m' ∧
    m.classes.map ClassDecl.name = ["Users", "UsersUsers", "UsersUsersUsers"] ∧
    (∀ name ∈ m.classNames, "Users".toList <+: name.toList) ∧
    m' = m.renamed "Users" "UsersUsers" := by
  obtain ⟨hbinds, hmodules⟩ := bind_assemble_renamed usersDocument {} "Users" "UsersUsers"
    (by decide) (by decide)
  obtain ⟨client, hbind, hclient⟩ := exists_eq_ok_of_any
    (x := (bindDocument usersDocument (some "Users")).result)
    (p := fun client => (assemble .python {} client).toOption.any fun m =>
      m.classes.map ClassDecl.name = ["Users", "UsersUsers", "UsersUsersUsers"])
    (by decide +kernel)
  obtain ⟨m, hassemble, hnames⟩ := exists_eq_ok_of_any hclient
  obtain ⟨client', hbind'⟩ := hbinds.mp ⟨client, hbind⟩
  obtain ⟨hassembles, hmodules⟩ := hmodules client client' hbind hbind' .python
  obtain ⟨m', hassemble'⟩ := hassembles.mp ⟨m, hassemble⟩
  exact ⟨client, client', m, m', hbind, hbind', hassemble, hassemble', of_decide_eq_true hnames,
    hmodules m m' hassemble hassemble'⟩

end ClientForge
