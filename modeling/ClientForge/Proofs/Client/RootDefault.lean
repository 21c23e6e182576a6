import ClientForge.Proofs.Client.Linkage
import ClientForge.Proofs.Schema.BaseDefault
/-!
# The default of the root constructor

The literal root URL of a document ends up in one place of a module: the default of the only
argument of the root constructor.  `withoutRootDefault` forgets that default, and
`bind_assemble_root_url` compares two documents that differ in the root's `$url` alone.  They can be
bound and assembled both or neither, and their modules are the same but for the default.
-/

namespace ClientForge

/-! ## Root constructors -/

/-- A class whose constructor has its defaults changed to one. -/
def ClassDecl.withDefault (default : Option Literal) (c : ClassDecl) : ClassDecl :=
  { c with constructor := { c.constructor with
      arguments := c.constructor.arguments.map ({ · with default := default }) } }

namespace Module

/-- The arguments of the root constructor, which is that of the first class. -/
def rootArguments (m : Module) : List Argument :=
  match m.classes with
  | [] => []
  | first :: _ => first.constructor.arguments

/-- A module with the defaults of the root constructor changed to one. -/
def withRootDefault (default : Option Literal) (m : Module) : Module :=
  { m with classes :=
      match m.classes with
      | [] => []
      | first :: rest => first.withDefault default :: rest }

/-- A module without the defaults of the root constructor. -/
def withoutRootDefault (m : Module) : Module :=
  m.withRootDefault none

@[simp] theorem withoutRootDefault_withRootDefault (default : Option Literal) (m : Module) :
    (m.withRootDefault default).withoutRootDefault = m.withoutRootDefault := by
  unfold withoutRootDefault withRootDefault
  cases m.classes with
  | nil => rfl
  | cons first rest => simp [ClassDecl.withDefault]

end Module

mutual

/-- Changing the markers changes no name that leads to a set. -/
theorem ApiSet.visits_mapBase {f : Option String → Option String} :
    (set : ApiSet) → (names : List String) → (set.mapBase f).visits names =
      (set.visits names).map fun visit => (visit.1, visit.2.mapBase f)
  | ⟨name, path, url, sets, actions⟩, names => by
      rw [ApiSet.mapBase, ApiSet.visits, ApiSet.visits, ApiSet.visitsAll_mapBase sets names,
        List.map_cons, ApiSet.mapBase]

private theorem ApiSet.visitsAll_mapBase {f : Option String → Option String} :
    (sets : List ApiSet) → (names : List String) →
      ApiSet.visitsAll names (ApiSet.mapBaseAll f sets) =
        (ApiSet.visitsAll names sets).map fun visit => (visit.1, visit.2.mapBase f)
  | [], names => by
      rw [ApiSet.mapBaseAll, ApiSet.visitsAll, List.map_nil]
  | set :: rest, names => by
      rw [ApiSet.mapBaseAll, ApiSet.visitsAll, ApiSet.visitsAll, ApiSet.mapBase_name,
        ApiSet.visits_mapBase set, ApiSet.visitsAll_mapBase rest, List.map_append]

end

namespace Assembly

open Naming

/-! ## Assembly without markers -/

section MapBase

variable {f : Option String → Option String} {style : Style}

/-- A marker becomes a piece that does not tell what the marker carried. -/
theorem piece_mapBase (depth : Nat) (list : List Argument) (part : UrlPart) :
    piece depth list (part.mapBase f) = piece depth list part := by
  cases part with
  | text s => rfl
  | slot name type => rfl
  | base default => rfl

theorem BuildsMethod.mapBase {depth : Nat} {a : Action} {m : Method}
    (h : BuildsMethod style depth a m) : BuildsMethod style depth (a.mapBase f) m where
  name_eq := h.name_eq
  wireName_eq := h.wireName_eq
  nodup := h.nodup
  arguments_eq := h.arguments_eq
  method_eq := h.method_eq
  url := by
    refine List.forall₂_map_left_iff.mpr (h.url.imp fun part p hpiece => ?_)
    rw [piece_mapBase]
    exact hpiece
  query_eq := h.query_eq
  body_eq := h.body_eq

/-- A class is built from an API set whatever its markers carry. -/
theorem BuildsClass.mapBase {rootName : String} {names : List String} {ctor : Constructor}
    {set : ApiSet} {c : ClassDecl} (h : BuildsClass style rootName names ctor set c) :
    BuildsClass style rootName names ctor (set.mapBase f) c := by
  rw [ApiSet.mapBase_eq]
  refine ⟨h.name_eq, h.path_eq, h.constructor_eq, ?_, ?_, ?_⟩
  · rw [List.map_map]
    refine h.accessors_eq.trans (List.map_congr_left fun child _ => ?_)
    simp [accessorOf]
  · simpa [setIdentifiers, actionIdentifiers, Function.comp_def] using h.nodup
  · exact List.forall₂_map_left_iff.mpr (h.methods.imp fun _ _ hmethod => hmethod.mapBase)

end MapBase

/-- A client with another root URL is assembled to the same module but for the root default. -/
theorem Assembles.withBase {language : Language} {config : Config} {client : Client} {m : Module}
    (h : Assembles language config client m) (url : Option String) :
    Assembles language config (client.withBase url) (m.withRootDefault (url.map .string)) := by
  have hvisits : (client.withBase url).root.visits [] = (client.root.visits []).map
      fun visit => (visit.1, visit.2.mapBase fun _ => url) := ApiSet.visits_mapBase client.root []
  have hclasses := h.classes
  rw [ApiSet.visits_eq] at hclasses
  obtain ⟨first, rest, hfirst, hrest, heq⟩ := List.forall₂_cons_left_iff.mp hclasses
  refine ⟨h.language_eq, h.rootClass_eq, h.comment_eq, ?_, ?_⟩
  · rw [hvisits, List.map_map]
    exact h.nodup
  · have hroot : first.withDefault (url.map .string) =
        { first with constructor := rootConstructor url } := by
      rw [ClassDecl.withDefault, hfirst.constructor_eq]
      rfl
    rw [hvisits, List.forall₂_map_left_iff, Module.withRootDefault, heq, ApiSet.visits_eq]
    refine List.Forall₂.cons ?_ ?_
    · rw [hroot]
      exact BuildsClass.mapBase { hfirst with constructor_eq := rfl }
    -- every other class has a parent, whatever the root constructor is
    · have hbelow := (List.forall₂_and_left _ _).mpr ⟨fun _ hvisit => hvisit, hrest⟩
      refine hbelow.imp ?_
      rintro ⟨names, set⟩ c ⟨hvisit, hclass⟩
      obtain ⟨outer, -, child, -, hnames⟩ := ApiSet.exists_outer_of_mem_visitsAll hvisit
      dsimp only at hnames hclass ⊢
      subst hnames
      rw [constructorAt_concat] at hclass ⊢
      exact hclass.mapBase

/-- The root constructor takes the base URL, which defaults to the literal root URL. -/
theorem Assembles.rootArguments_eq {language : Language} {config : Config} {client : Client}
    {m : Module} (h : Assembles language config client m) :
    m.rootArguments = (rootConstructor client.url).arguments := by
  have hclasses := h.classes
  rw [ApiSet.visits_eq] at hclasses
  obtain ⟨first, rest, hfirst, -, heq⟩ := List.forall₂_cons_left_iff.mp hclasses
  rw [Module.rootArguments, heq]
  exact congrArg Constructor.arguments hfirst.constructor_eq

end Assembly

/-! ## Two root URLs -/

namespace Schema

theorem isSome_of_readRootUrl {scope : Scope} {raw : Value} {url : Option String}
    (h : readRootUrl scope raw = .ok url) : url.isSome = true ↔ ∃ s, raw = .str s := by
  cases raw with
  | null =>
      cases h
      simp
  | str s =>
      cases hparse : Expression.parse s with
      | error fault => simp [readRootUrl, hparse] at h
      | ok e =>
          rw [readRootUrl, hparse] at h
          obtain ⟨_, -, rfl⟩ := exceptMap_eq_ok_iff.mp h
          simp
  | _ => simp [readRootUrl] at h

/-- Whatever a document is bound to, another `$url` of the root that fits gives the same client
with other markers. -/
theorem exists_bindDocument_withBase {root root' : Entries} {asked : Option String}
    {client : Client} (h : (bindDocument (.map root) asked).result = .ok client)
    (hsame : withoutUrl root = withoutUrl root') (hfits : RootUrlFits (Value.field "$url" root')) :
    ∃ url, (bindDocument (.map root') asked).result = .ok (client.withBase url) := by
  obtain ⟨_, members, heq, hclient⟩ := bindDocument_eq_ok_iff.mp h
  cases heq
  have hscope : (clientScope client.className).attributes = [] := rfl
  obtain ⟨url, hurl⟩ := (exists_readRootUrl_iff hscope).mpr hfits
  exact ⟨url, bindDocument_eq_ok_iff.mpr ⟨_, _, rfl, hclient.withBase hsame hurl⟩⟩

end Schema

namespace Assembly

/-- The root constructor has one argument, which has a default if the document gives the root a
URL. -/
theorem exists_rootArguments_eq {root : Schema.Entries} {asked : Option String} {client : Client}
    {language : Language} {config : Config} {m : Module}
    (hbind : (Schema.bindDocument (.map root) asked).result = .ok client)
    (hassemble : assemble language config client = .ok m) :
    ∃ argument, m.rootArguments = [argument] ∧
      (argument.default.isSome = true ↔ ∃ s, Value.field "$url" root = .str s) := by
  obtain ⟨_, _, heq, hclient⟩ := Schema.bindDocument_eq_ok_iff.mp hbind
  cases heq
  refine ⟨_, (assemble_eq_ok_iff.mp hassemble).rootArguments_eq, ?_⟩
  rw [← Schema.isSome_of_readRootUrl hclient.url, Option.isSome_map]

end Assembly

open Schema Assembly in
/-- Two documents that differ in the `$url` of the root alone can both be bound or neither, their
clients can both be assembled or neither, and the modules differ at most in the default of the one
argument of the root constructor. -/
theorem bind_assemble_root_url (root root' : Entries) (asked : Option String)
    (hsame : withoutUrl root = withoutUrl root') (hfits : RootUrlFits (Value.field "$url" root))
    (hfits' : RootUrlFits (Value.field "$url" root')) :
    ((∃ client, (bindDocument (.map root) asked).result = .ok client) ↔
      ∃ client, (bindDocument (.map root') asked).result = .ok client) ∧
    ∀ client client', (bindDocument (.map root) asked).result = .ok client →
      (bindDocument (.map root') asked).result = .ok client' →
      ∀ language config,
        ((∃ m, assemble language config client = .ok m) ↔
          ∃ m, assemble language config client' = .ok m) ∧
        ∀ m m', assemble language config client = .ok m →
          assemble language config client' = .ok m' →
          m.withoutRootDefault = m'.withoutRootDefault ∧
          (∃ argument, m.rootArguments = [argument] ∧
            (argument.default.isSome = true ↔ ∃ s, Value.field "$url" root = .str s)) ∧
          ∃ argument, m'.rootArguments = [argument] ∧
            (argument.default.isSome = true ↔ ∃ s, Value.field "$url" root' = .str s) := by
  refine ⟨⟨?_, ?_⟩, ?_⟩
  · rintro ⟨client, hbind⟩
    obtain ⟨url, hbind'⟩ := exists_bindDocument_withBase hbind hsame hfits'
    exact ⟨_, hbind'⟩
  · rintro ⟨client, hbind⟩
    obtain ⟨url, hbind'⟩ := exists_bindDocument_withBase hbind hsame.symm hfits
    exact ⟨_, hbind'⟩
  · intro client client' hbind hbind' language config
    -- either client is the other one with the markers changed
    obtain ⟨url', heq'⟩ := exists_bindDocument_withBase hbind hsame hfits'
    obtain ⟨url, heq⟩ := exists_bindDocument_withBase hbind' hsame.symm hfits
    obtain rfl : client' = client.withBase url' := Except.ok.inj (hbind'.symm.trans heq')
    have hback : client = (client.withBase url').withBase url :=
      Except.ok.inj (hbind.symm.trans heq)
    have hforth : ∀ m, assemble language config client = .ok m →
        assemble language config (client.withBase url') =
          .ok (m.withRootDefault (url'.map .string)) := fun m hm =>
      assemble_eq_ok_iff.mpr ((assemble_eq_ok_iff.mp hm).withBase url')
    refine ⟨⟨?_, ?_⟩, ?_⟩
    · rintro ⟨m, hm⟩
      exact ⟨_, hforth m hm⟩
    · rintro ⟨m, hm⟩
      rw [hback]
      exact ⟨_, assemble_eq_ok_iff.mpr ((assemble_eq_ok_iff.mp hm).withBase url)⟩
    · intro m m' hm hm'
      obtain rfl : m' = m.withRootDefault (url'.map .string) :=
        Except.ok.inj (hm'.symm.trans (hforth m hm))
      refine ⟨?_, exists_rootArguments_eq hbind hm, exists_rootArguments_eq hbind' hm'⟩
      rw [Module.withoutRootDefault_withRootDefault]

/-- Members whose URLs take up the base URL at two depths, next to text. -/
def basedMembers : Schema.Entries :=
  [(.str "~shop", .map
     [(.str "$url", .str "$\x7b!super\x7d/s/<id>"),
      (.str "~item", .map
        [(.str "$url", .str "a$\x7b!super.!super\x7d$\x7b!super\x7d"), (.str "get", .null)])]),
   (.str "list", .null)]

open Schema Assembly in
/-- A root URL in front, and none behind. -/
theorem bind_assemble_root_url_based : ∃ client client' m m',
    (bindDocument (.map ((.str "$url", .str "http://h") :: basedMembers)) none).result =
      .ok client ∧
    (bindDocument (.map (basedMembers ++ [(.str "$url", .null)])) none).result = .ok client' ∧
    assemble .typeScript {} client = .ok m ∧ assemble .typeScript {} client' = .ok m' ∧
    m.withoutRootDefault = m'.withoutRootDefault ∧
    (∃ argument, m.rootArguments = [argument] ∧ argument.default.isSome = true) ∧
    ∃ argument, m'.rootArguments = [argument] ∧ argument.default.isSome = false := by
  have hscope : (clientScope "XSClient").attributes = [] := rfl
  have hfits : RootUrlFits (.str "http://h") := by
    obtain ⟨url, hurl, -⟩ := exists_eq_ok_of_any
      (x := readRootUrl (clientScope "XSClient") (.str "http://h")) (p := fun _ => true)
      (by decide +kernel)
    exact (exists_readRootUrl_iff hscope).mp ⟨url, hurl⟩
  obtain ⟨hbinds, hmodules⟩ := bind_assemble_root_url
    ((.str "$url", .str "http://h") :: basedMembers) (basedMembers ++ [(.str "$url", .null)])
    none rfl hfits (Or.inl rfl)
  obtain ⟨client, hbind, hclient⟩ := exists_eq_ok_of_any
    (x := (bindDocument (.map ((.str "$url", .str "http://h") :: basedMembers)) none).result)
    (p := fun client => (assemble .typeScript {} client).toOption.any fun _ => true)
    (by decide +kernel)
  obtain ⟨m, hassemble, -⟩ := exists_eq_ok_of_any hclient
  obtain ⟨client', hbind'⟩ := hbinds.mp ⟨client, hbind⟩
  obtain ⟨hassembles, hmodules⟩ := hmodules client client' hbind hbind' .typeScript {}
  obtain ⟨m', hassemble'⟩ := hassembles.mp ⟨m, hassemble⟩
  obtain ⟨heq, ⟨argument, hargument, hdefault⟩, argument', hargument', hdefault'⟩ :=
    hmodules m m' hassemble hassemble'
  refine ⟨client, client', m, m', hbind, hbind', hassemble, hassemble', heq,
    ⟨argument, hargument, hdefault.mpr ⟨_, rfl⟩⟩, argument', hargument', ?_⟩
  rw [← Bool.not_eq_true, hdefault']
  rintro ⟨s, hs⟩
  cases hs

end ClientForge
