import ClientForge.Client.Assembly
import ClientForge.Proofs.Basics
import ClientForge.Proofs.Schema.Visits
/-!
# Outcomes of assembly

Assembly takes the API sets of a client in pre-order, one class each.  `assemble_eq_ok_iff` says
exactly when it answers: the class names of all sets are distinct, and every class can be built on
its own.  A class can be built exactly if the identifiers of its members are distinct and each of
its methods can be built (`BuildsClass`), a method if the identifiers of its parameters are distinct
and every slot of its URL has a parameter (`BuildsMethod`).

Only the class names tie the classes of a module together, so the walk over the tree with the
classes made so far is first flattened into a walk over the list of visits.
-/

namespace ClientForge
namespace Assembly

open Naming

/-! ## Methods -/

/-- The identifiers of parameters. -/
def parameterIdentifiers (style : Style) (list : List Parameter) : List String :=
  list.map fun p => style.identifier p.name

private theorem arguments_from_eq_ok_iff {style : Style} {found list : List Argument}
    {ps : List Parameter} :
    arguments style found ps = .ok list ↔
      list = found ++ ps.map (argumentOf style) ∧
        Fresh (found.map Argument.name) (parameterIdentifiers style ps) := by
  induction ps generalizing found with
  | nil => simp [arguments, parameterIdentifiers, eq_comm]
  | cons p rest ih =>
      have hids : parameterIdentifiers style (p :: rest) =
          (argumentOf style p).name :: parameterIdentifiers style rest := rfl
      rw [hids, fresh_cons_iff, ← find?_eq_none_iff_not_mem]
      cases hfind : found.find? (·.name = (argumentOf style p).name) with
      | some first => simp [arguments, hfind]
      | none =>
          simp only [arguments, hfind, true_and]
          rw [ih, List.map_append, List.append_assoc]
          rfl

/-- Arguments can be made exactly if no two parameters get one identifier. -/
theorem arguments_eq_ok_iff {style : Style} {list : List Argument} {ps : List Parameter} :
    arguments style [] ps = .ok list ↔
      list = ps.map (argumentOf style) ∧ (parameterIdentifiers style ps).Nodup := by
  rw [arguments_from_eq_ok_iff]
  simp

/-- A slot becomes the argument that is sent under its name. -/
theorem piece_slot_eq_ok_iff {depth : Nat} {list : List Argument} {name : String}
    {type : Primitive} {p : UrlPiece} :
    piece depth list (.slot name type) = .ok p ↔ ∃ argument,
      list.find? (·.wireName = name) = some argument ∧ p = .param argument.name argument.type := by
  rw [piece]
  cases list.find? (·.wireName = name) with
  | none => simp
  | some argument => simp [eq_comm]

theorem pieces_eq_ok_iff {depth : Nat} {list : List Argument} {parts : List UrlPart}
    {url : List UrlPiece} :
    pieces depth list parts = .ok url ↔
      List.Forall₂ (fun part p => piece depth list part = .ok p) parts url := by
  induction parts generalizing url with
  | nil => simp [pieces, eq_comm]
  | cons part rest ih =>
      rw [List.forall₂_cons_left_iff]
      cases hpiece : piece depth list part with
      | error cause => simp [pieces, hpiece]
      | ok p =>
          simp only [pieces, hpiece, exceptMap_eq_ok_iff, Except.ok.injEq]
          constructor
          · rintro ⟨others, hothers, rfl⟩
            exact ⟨p, others, rfl, ih.mp hothers, rfl⟩
          · rintro ⟨_, others, rfl, hothers, rfl⟩
            exact ⟨others, ih.mpr hothers, rfl⟩

/-- What has to hold for a method to be built, and what it is made of. -/
structure BuildsMethod (style : Style) (depth : Nat) (a : Action) (m : Method) : Prop where
  name_eq : m.name = style.identifier a.name
  wireName_eq : m.wireName = a.name
  nodup : (parameterIdentifiers style a.parameters).Nodup
  arguments_eq : m.arguments = a.parameters.map (argumentOf style)
  method_eq : m.call.method = a.method.name
  url : List.Forall₂ (fun part p => piece depth m.arguments part = .ok p) a.url.parts m.call.url
  query_eq : m.call.query = m.arguments.filter (·.origin = .query)
  body_eq : m.call.body = m.arguments.filter (·.origin = .body)

theorem method_eq_ok_iff {style : Style} {depth : Nat} {a : Action} {m : Method} :
    method style depth a = .ok m ↔ BuildsMethod style depth a m := by
  unfold method
  constructor
  · intro h
    cases harguments : arguments style [] a.parameters with
    | error cause => simp [harguments] at h
    | ok list =>
        simp only [harguments] at h
        obtain ⟨url, hurl, rfl⟩ := exceptMap_eq_ok_iff.mp h
        obtain ⟨hlist, hnodup⟩ := arguments_eq_ok_iff.mp harguments
        exact ⟨rfl, rfl, hnodup, hlist, rfl, pieces_eq_ok_iff.mp hurl, rfl, rfl⟩
  · intro h
    obtain ⟨name, wireName, list, ⟨httpMethod, url, query, body⟩⟩ := m
    obtain ⟨hname, hwireName, hnodup, hlist, hmethod, hurl, hquery, hbody⟩ := h
    dsimp only at hname hwireName hlist hmethod hurl hquery hbody
    rw [arguments_eq_ok_iff.mpr ⟨hlist, hnodup⟩]
    dsimp only
    rw [pieces_eq_ok_iff.mpr hurl, hname, hwireName, hmethod, hquery, hbody]
    rfl

/-- No two arguments of a method have one identifier. -/
theorem BuildsMethod.nodup_arguments {style : Style} {depth : Nat} {a : Action} {f : Method}
    (h : BuildsMethod style depth a f) : (f.arguments.map Argument.name).Nodup := by
  have hnames : f.arguments.map Argument.name = parameterIdentifiers style a.parameters := by
    rw [h.arguments_eq, List.map_map]
    rfl
  rw [hnames]
  exact h.nodup

/-! ## Classes -/

theorem claim_eq_ok_iff {claims next : Claims} {identifier path : String} :
    claim claims identifier path = .ok next ↔
      identifier ∉ claims.map Prod.fst ∧ next = claims ++ [(identifier, path)] := by
  unfold claim
  rw [← lookup_eq_none_iff_not_mem]
  cases claims.lookup identifier with
  | none => simp [eq_comm]
  | some first => simp

/-- Only an identifier that is taken cannot be claimed. -/
theorem mem_of_claim_eq_error {claims : Claims} {identifier path : String} {cause : Cause}
    (h : claim claims identifier path = .error cause) : identifier ∈ claims.map Prod.fst := by
  by_contra hfresh
  rw [claim_eq_ok_iff.mpr ⟨hfresh, rfl⟩] at h
  cases h

/-- The accessor for a set nested in the one that names lead to. -/
def accessorOf (style : Style) (rootName : String) (names : List String) (set : ApiSet) :
    Accessor :=
  ⟨style.identifier set.name, className rootName (names ++ [set.name])⟩

theorem name_accessorOf (style : Style) (rootName : String) (names : List String) (set : ApiSet) :
    (accessorOf style rootName names set).name = style.identifier set.name :=
  rfl

/-- The identifiers of API sets. -/
def setIdentifiers (style : Style) (sets : List ApiSet) : List String :=
  sets.map fun s => style.identifier s.name

/-- The identifiers of actions. -/
def actionIdentifiers (style : Style) (actions : List Action) : List String :=
  actions.map fun a => style.identifier a.name

/-- The claims that nested sets make. -/
def setClaims (style : Style) (sets : List ApiSet) : Claims :=
  sets.map fun s => (style.identifier s.name, s.path.dotted)

@[simp] theorem map_fst_setClaims (style : Style) (sets : List ApiSet) :
    (setClaims style sets).map Prod.fst = setIdentifiers style sets := by
  simp [setClaims, setIdentifiers]

theorem accessors_eq_ok_iff {style : Style} {rootName : String} {names : List String}
    {claims next : Claims} {sets : List ApiSet} {list : List Accessor} :
    accessors style rootName names claims sets = .ok (list, next) ↔
      list = sets.map (accessorOf style rootName names) ∧
      next = claims ++ setClaims style sets ∧
      Fresh (claims.map Prod.fst) (setIdentifiers style sets) := by
  induction sets generalizing claims list with
  | nil => simp [accessors, setIdentifiers, setClaims, eq_comm]
  | cons set rest ih =>
      have hids : setIdentifiers style (set :: rest) =
          style.identifier set.name :: setIdentifiers style rest := rfl
      have hclaims : setClaims style (set :: rest) =
          (style.identifier set.name, set.path.dotted) :: setClaims style rest := rfl
      rw [hids, hclaims, fresh_cons_iff, List.map_cons]
      cases hclaim : claim claims (style.identifier set.name) set.path.dotted with
      | error cause =>
          simp [accessors, hclaim, mem_of_claim_eq_error hclaim]
      | ok taken =>
          obtain ⟨hnew, rfl⟩ := claim_eq_ok_iff.mp hclaim
          simp only [accessors, hclaim, exceptMap_eq_ok_iff, Prod.exists, Prod.mk.injEq]
          constructor
          · rintro ⟨others, _, hothers, rfl, rfl⟩
            obtain ⟨rfl, rfl, hfresh⟩ := ih.mp hothers
            rw [List.map_append] at hfresh
            exact ⟨rfl, by simp, hnew, hfresh⟩
          · rintro ⟨rfl, rfl, -, hfresh⟩
            refine ⟨_, _, ih.mpr ⟨rfl, by simp, ?_⟩, rfl, rfl⟩
            rw [List.map_append]
            exact hfresh

theorem methods_eq_ok_iff {style : Style} {depth : Nat} {claims : Claims} {actions : List Action}
    {list : List Method} :
    methods style depth claims actions = .ok list ↔
      Fresh (claims.map Prod.fst) (actionIdentifiers style actions) ∧
      List.Forall₂ (BuildsMethod style depth) actions list := by
  induction actions generalizing claims list with
  | nil => simp [methods, actionIdentifiers, eq_comm]
  | cons a rest ih =>
      have hids : actionIdentifiers style (a :: rest) =
          style.identifier a.name :: actionIdentifiers style rest := rfl
      rw [hids, fresh_cons_iff, List.forall₂_cons_left_iff]
      cases hclaim : claim claims (style.identifier a.name) a.path.dotted with
      | error cause =>
          simp [methods, hclaim, mem_of_claim_eq_error hclaim]
      | ok taken =>
          obtain ⟨hnew, rfl⟩ := claim_eq_ok_iff.mp hclaim
          have hclaims : (claims ++ [(style.identifier a.name, a.path.dotted)]).map Prod.fst =
              claims.map Prod.fst ++ [style.identifier a.name] := by
            rw [List.map_append]
            rfl
          simp only [← method_eq_ok_iff, methods, hclaim]
          cases method style depth a with
          | error cause => simp
          | ok m =>
              simp only [exceptMap_eq_ok_iff, Except.ok.injEq]
              constructor
              · rintro ⟨others, hothers, rfl⟩
                obtain ⟨hfresh, hforall⟩ := ih.mp hothers
                rw [hclaims] at hfresh
                exact ⟨⟨hnew, hfresh⟩, m, others, rfl, hforall, rfl⟩
              · rintro ⟨⟨-, hfresh⟩, _, others, rfl, hforall, rfl⟩
                exact ⟨others, ih.mpr ⟨hclaims ▸ hfresh, hforall⟩, rfl⟩

/-- What has to hold for the class of a set to be built, and what it is made of. -/
structure BuildsClass (style : Style) (rootName : String) (names : List String)
    (ctor : Constructor) (set : ApiSet) (decl : ClassDecl) : Prop where
  name_eq : decl.name = className rootName names
  path_eq : decl.path = set.path.dotted
  constructor_eq : decl.constructor = ctor
  accessors_eq : decl.accessors = set.sets.map (accessorOf style rootName names)
  nodup : (setIdentifiers style set.sets ++ actionIdentifiers style set.actions).Nodup
  methods : List.Forall₂ (BuildsMethod style names.length) set.actions decl.methods

theorem classDecl_eq_ok_iff {style : Style} {rootName : String} {names : List String}
    {ctor : Constructor} {done : List ClassDecl} {set : ApiSet} {decl : ClassDecl} :
    classDecl style rootName names ctor done set = .ok decl ↔
      className rootName names ∉ done.map ClassDecl.name ∧
        BuildsClass style rootName names ctor set decl := by
  rw [← find?_eq_none_iff_not_mem]
  cases hfind : done.find? (·.name = className rootName names) with
  | some other => simp [classDecl, hfind]
  | none =>
      simp only [classDecl, hfind, true_and]
      constructor
      · intro h
        cases haccessors : accessors style rootName names [] set.sets with
        | error failure => simp [haccessors] at h
        | ok pair =>
            obtain ⟨list, claims⟩ := pair
            obtain ⟨hlist, hclaims, hsets⟩ := accessors_eq_ok_iff.mp haccessors
            simp only [haccessors] at h
            obtain ⟨ms, hms, rfl⟩ := exceptMap_eq_ok_iff.mp h
            obtain ⟨hactions, hforall⟩ := methods_eq_ok_iff.mp hms
            refine ⟨rfl, rfl, rfl, hlist, ?_, hforall⟩
            rw [hclaims, List.nil_append, map_fst_setClaims] at hactions
            exact fresh_nil_left.mp (fresh_append_iff.mpr ⟨hsets, hactions⟩)
      · intro h
        obtain ⟨name, path, ctor', list, ms⟩ := decl
        obtain ⟨hname, hpath, hctor, hlist, hnodup, hforall⟩ := h
        obtain ⟨hsets, hactions⟩ := fresh_append_iff.mp (fresh_nil_left.mpr hnodup)
        dsimp only at hname hpath hctor hlist hforall
        have haccessors : accessors style rootName names [] set.sets =
            .ok (list, [] ++ setClaims style set.sets) :=
          accessors_eq_ok_iff.mpr ⟨hlist, rfl, hsets⟩
        rw [haccessors]
        dsimp only
        rw [List.nil_append, methods_eq_ok_iff.mpr ⟨?_, hforall⟩, hname, hpath, hctor]
        · rfl
        · rw [map_fst_setClaims]
          exact hactions

/-! ## Runs -/

/-- The constructor of the class that names lead to: the given one at the top, and one that takes
the parent everywhere else. -/
def constructorAt (rootName : String) (top : Constructor) : List String → Constructor
  | [] => top
  | name :: names => { parentClass := some (className rootName (name :: names).dropLast) }

@[simp] theorem constructorAt_concat (rootName : String) (top : Constructor)
    (names : List String) (name : String) :
    constructorAt rootName top (names ++ [name]) =
      { parentClass := some (className rootName names) } := by
  cases names with
  | nil => rfl
  | cons first rest =>
      rw [List.cons_append, constructorAt, ← List.cons_append, List.dropLast_concat]

/-- The classes before, and those of visits, one after the other. -/
def run (style : Style) (rootName : String) (top : Constructor) (done : List ClassDecl) :
    List (List String × ApiSet) → Except Failure (List ClassDecl)
  | [] => .ok done
  | (names, set) :: rest =>
      match classDecl style rootName names (constructorAt rootName top names) done set with
      | .error failure => .error failure
      | .ok decl => run style rootName top (done ++ [decl]) rest

theorem run_append {style : Style} {rootName : String} {top : Constructor}
    (done : List ClassDecl) (list more : List (List String × ApiSet)) :
    run style rootName top done (list ++ more) =
      match run style rootName top done list with
      | .error failure => .error failure
      | .ok next => run style rootName top next more := by
  induction list generalizing done with
  | nil => rfl
  | cons visit rest ih =>
      obtain ⟨names, set⟩ := visit
      rw [List.cons_append, run, run]
      cases classDecl style rootName names (constructorAt rootName top names) done set with
      | error failure => rfl
      | ok decl => exact ih (done ++ [decl])

mutual

/-- The walk over a set and those below it is the run over its visits. -/
theorem classes_eq_run (style : Style) (rootName : String) (top : Constructor) :
    (names : List String) → (done : List ClassDecl) → (set : ApiSet) →
      classes style rootName names (constructorAt rootName top names) done set =
        run style rootName top done (set.visits names)
  | names, done, ⟨name, path, url, sets, actions⟩ => by
      rw [classes, ApiSet.visits, run]
      cases hdecl : classDecl style rootName names (constructorAt rootName top names) done
          ⟨name, path, url, sets, actions⟩ with
      | error failure => rfl
      | ok decl =>
          -- the sets below take the class just built as their parent, and only by its name
          have hname := (classDecl_eq_ok_iff.mp hdecl).2.name_eq
          dsimp only
          rw [hname]
          exact nestedClasses_eq_run style rootName top names (done ++ [decl]) sets

private theorem nestedClasses_eq_run (style : Style) (rootName : String) (top : Constructor) :
    (names : List String) → (done : List ClassDecl) → (sets : List ApiSet) →
      nestedClasses style rootName names (className rootName names) done sets =
        run style rootName top done (ApiSet.visitsAll names sets)
  | names, done, [] => by
      rw [nestedClasses, ApiSet.visitsAll, run]
  | names, done, set :: rest => by
      have hset := classes_eq_run style rootName top (names ++ [set.name]) done set
      rw [constructorAt_concat] at hset
      rw [nestedClasses, ApiSet.visitsAll, run_append, hset]
      cases run style rootName top done (set.visits (names ++ [set.name])) with
      | error failure => rfl
      | ok next => exact nestedClasses_eq_run style rootName top names next rest

end

/-- A run answers exactly if the names of its classes are new and each class can be built. -/
theorem run_eq_ok_iff {style : Style} {rootName : String} {top : Constructor}
    {done out : List ClassDecl} {list : List (List String × ApiSet)} :
    run style rootName top done list = .ok out ↔
      Fresh (done.map ClassDecl.name) (list.map fun visit => className rootName visit.1) ∧
      ∃ decls, out = done ++ decls ∧ List.Forall₂ (fun visit decl =>
        BuildsClass style rootName visit.1 (constructorAt rootName top visit.1) visit.2 decl)
        list decls := by
  induction list generalizing done with
  | nil => simp [run, eq_comm]
  | cons visit rest ih =>
      obtain ⟨names, set⟩ := visit
      rw [List.map_cons, fresh_cons_iff]
      simp only [List.forall₂_cons_left_iff]
      cases hdecl : classDecl style rootName names (constructorAt rootName top names) done set with
      | error failure =>
          simp only [run, hdecl, reduceCtorEq, false_iff]
          rintro ⟨⟨hnew, -⟩, _, -, decl, _, hbuilds, -⟩
          rw [classDecl_eq_ok_iff.mpr ⟨hnew, hbuilds⟩] at hdecl
          cases hdecl
      | ok decl =>
          -- the class is built now, and the rest has one more name to avoid
          obtain ⟨hnew, hbuilds⟩ := classDecl_eq_ok_iff.mp hdecl
          simp only [run, hdecl]
          rw [ih, List.map_append, List.map_singleton, hbuilds.name_eq]
          constructor
          · rintro ⟨hfresh, decls, rfl, hforall⟩
            exact ⟨⟨hnew, hfresh⟩, decl :: decls, by simp, decl, decls, hbuilds, hforall, rfl⟩
          · rintro ⟨⟨-, hfresh⟩, _, rfl, decl', decls, hbuilds', hforall, rfl⟩
            rw [classDecl_eq_ok_iff.mpr ⟨hnew, hbuilds'⟩] at hdecl
            cases hdecl
            exact ⟨hfresh, decls, by simp, hforall⟩

/-! ## Modules -/

/-- What has to hold for a module to be assembled, and what it is made of. -/
structure Assembles (language : Language) (config : Config) (client : Client) (m : Module) :
    Prop where
  language_eq : m.language = language
  rootClass_eq : m.rootClass = client.className
  comment_eq : m.comment = config.comment
  nodup : ((client.root.visits []).map fun visit => className client.className visit.1).Nodup
  classes : List.Forall₂ (fun visit decl => BuildsClass (styleOf language) client.className visit.1
    (constructorAt client.className (rootConstructor client.url) visit.1) visit.2 decl)
    (client.root.visits []) m.classes

theorem assemble_eq_ok_iff {language : Language} {config : Config} {client : Client}
    {m : Module} :
    assemble language config client = .ok m ↔ Assembles language config client m := by
  have hrun := classes_eq_run (styleOf language) client.className (rootConstructor client.url) []
    [] client.root
  unfold assemble
  rw [exceptMap_eq_ok_iff]
  constructor
  · rintro ⟨list, hlist, rfl⟩
    obtain ⟨hfresh, decls, rfl, hforall⟩ := run_eq_ok_iff.mp (hrun ▸ hlist)
    exact ⟨rfl, rfl, rfl, fresh_nil_left.mp hfresh, hforall⟩
  · intro h
    obtain ⟨language', rootClass, comment, list⟩ := m
    obtain ⟨hlanguage, hroot, hcomment, hnodup, hforall⟩ := h
    have hfresh := fresh_nil_left.mpr hnodup
    refine ⟨list, hrun.trans (run_eq_ok_iff.mpr ⟨hfresh, list, rfl, hforall⟩), ?_⟩
    rw [← hlanguage, ← hroot, ← hcomment]

end Assembly
end ClientForge
