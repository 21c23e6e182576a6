import ClientForge.Proofs.Client.Collision
import ClientForge.Proofs.Naming.Identifier
/-!
# Agreement between languages

`Module.wire` is what is left of a module without its language and without the identifiers of
members and parameters: a parameter piece of a URL is replaced by the parameter that its identifier
belongs to.  The wire form can be read off the bound client (`wire_of_assembles`), so it is the same
in every language.  Which languages have a module at all depends on collisions only, and there the
snake style finds fewest (`assemble_agree`).
-/

namespace ClientForge

/-! ## Wire forms -/

/-- An argument as the parameter that it stands for. -/
def Argument.parameter (a : Argument) : Parameter :=
  ⟨a.wireName, a.type, a.origin, a.default⟩

/-- A piece of a URL without identifiers. -/
inductive WirePiece where
  | text (s : String)
  | param (p : Parameter) (type : Primitive)
  | base (hops : Nat)

/-- A method without identifiers.  Where a parameter piece has no parameter, the piece is lost. -/
structure WireMethod where
  wireName : String
  method : String
  parameters : List Parameter
  url : List (Option WirePiece)
  query : List Parameter
  body : List Parameter

/-- A class without the identifiers of its members. -/
structure WireClass where
  name : String
  path : String
  constructor : Constructor
  targets : List String
  methods : List WireMethod

/-- A module without its language and the identifiers of members and parameters. -/
structure WireModule where
  rootClass : String
  comment : String
  classes : List WireClass

/-- A piece of the URL of a method with the given arguments. -/
def UrlPiece.wire (list : List Argument) : UrlPiece → Option WirePiece
  | .text s => some (.text s)
  | .param name type => (list.find? (·.name = name)).map fun a => .param a.parameter type
  | .base hops => some (.base hops)

/-- The wire form of a method. -/
def Method.wire (f : Method) : WireMethod where
  wireName := f.wireName
  method := f.call.method
  parameters := f.arguments.map Argument.parameter
  url := f.call.url.map (UrlPiece.wire f.arguments)
  query := f.call.query.map Argument.parameter
  body := f.call.body.map Argument.parameter

/-- The wire form of a class. -/
def ClassDecl.wire (c : ClassDecl) : WireClass where
  name := c.name
  path := c.path
  constructor := c.constructor
  targets := c.accessors.map Accessor.className
  methods := c.methods.map Method.wire

/-- The wire form of a module. -/
def Module.wire (m : Module) : WireModule where
  rootClass := m.rootClass
  comment := m.comment
  classes := m.classes.map ClassDecl.wire

namespace Assembly

open Naming

/-! ## Wire forms of bound clients -/

/-- The wire form that a part of a URL gets at a depth. -/
def wirePart (depth : Nat) (list : List Parameter) : UrlPart → Option WirePiece
  | .text s => some (.text s)
  | .slot name _ => (list.find? (·.name = name)).map fun p => .param p p.type
  | .base _ => some (.base depth)

/-- The wire form that an action gets at a depth. -/
def wireAction (depth : Nat) (a : Action) : WireMethod where
  wireName := a.name
  method := a.method.name
  parameters := a.parameters
  url := a.url.parts.map (wirePart depth a.parameters)
  query := a.parameters.filter (·.origin = .query)
  body := a.parameters.filter (·.origin = .body)

/-- The wire form that a visited set gets. -/
def wireSet (client : Client) (visit : List String × ApiSet) : WireClass where
  name := className client.className visit.1
  path := visit.2.path.dotted
  constructor := constructorAt client.className (rootConstructor client.url) visit.1
  targets := visit.2.sets.map fun s => className client.className (visit.1 ++ [s.name])
  methods := visit.2.actions.map (wireAction visit.1.length)

theorem map_parameter_argumentOf (style : Style) (list : List Parameter) :
    (list.map (argumentOf style)).map Argument.parameter = list := by
  rw [List.map_map]
  exact List.map_id list

theorem map_parameter_filter (style : Style) (list : List Parameter) (origin : Origin) :
    ((list.map (argumentOf style)).filter (·.origin = origin)).map Argument.parameter =
      list.filter (·.origin = origin) := by
  rw [List.filter_map, List.map_map]
  exact List.map_id _

/-- A piece belongs to the parameter that its part asks for. -/
theorem wire_of_piece {style : Style} {depth : Nat} {list : List Parameter} {part : UrlPart}
    {p : UrlPiece} (hnodup : (parameterIdentifiers style list).Nodup)
    (h : piece depth (list.map (argumentOf style)) part = .ok p) :
    p.wire (list.map (argumentOf style)) = wirePart depth list part := by
  cases part with
  | text s =>
      cases h
      rfl
  | base default =>
      cases h
      rfl
  | slot name type =>
      have hfind : (list.map (argumentOf style)).find? (·.wireName = name) =
          (list.find? (·.name = name)).map (argumentOf style) := List.find?_map
      rw [piece, hfind] at h
      cases hparameter : list.find? (·.name = name) with
      | none => simp [hparameter] at h
      | some q =>
          simp only [hparameter, Option.map_some, Except.ok.injEq] at h
          subst h
          -- the identifier is that of one parameter only
          have hnames : ((list.map (argumentOf style)).map Argument.name).Nodup := by
            rw [List.map_map]
            exact hnodup
          have hback := find?_eq_some_of_nodup hnames
            (List.mem_map_of_mem (List.mem_of_find?_eq_some hparameter))
          rw [UrlPiece.wire, hback, wirePart, hparameter]
          rfl

theorem wire_of_buildsMethod {style : Style} {depth : Nat} {a : Action} {f : Method}
    (h : BuildsMethod style depth a f) : f.wire = wireAction depth a := by
  have hurl : a.url.parts.map (wirePart depth a.parameters) =
      f.call.url.map (UrlPiece.wire f.arguments) := by
    refine map_eq_map_of_forall₂ h.url fun part p hpiece => ?_
    rw [h.arguments_eq] at hpiece ⊢
    exact (wire_of_piece h.nodup hpiece).symm
  rw [Method.wire, wireAction, h.wireName_eq, h.method_eq, ← hurl, h.query_eq, h.body_eq,
    h.arguments_eq, map_parameter_argumentOf, map_parameter_filter, map_parameter_filter]

theorem wire_of_buildsClass {style : Style} {client : Client} {visit : List String × ApiSet}
    {c : ClassDecl} (h : BuildsClass style client.className visit.1
      (constructorAt client.className (rootConstructor client.url) visit.1) visit.2 c) :
    c.wire = wireSet client visit := by
  have hmethods : visit.2.actions.map (wireAction visit.1.length) = c.methods.map Method.wire :=
    map_eq_map_of_forall₂ h.methods fun _ _ hmethod => (wire_of_buildsMethod hmethod).symm
  have htargets : c.accessors.map Accessor.className =
      visit.2.sets.map fun s => className client.className (visit.1 ++ [s.name]) := by
    rw [h.accessors_eq, List.map_map]
    rfl
  rw [ClassDecl.wire, wireSet, h.name_eq, h.path_eq, h.constructor_eq, htargets, hmethods]

/-- The wire form of a module can be read off the client, whatever the language. -/
theorem wire_of_assembles {language : Language} {config : Config} {client : Client} {m : Module}
    (h : Assembles language config client m) :
    m.wire = ⟨client.className, config.comment, (client.root.visits []).map (wireSet client)⟩ := by
  have hclasses : (client.root.visits []).map (wireSet client) = m.classes.map ClassDecl.wire :=
    map_eq_map_of_forall₂ h.classes fun _ _ hclass => (wire_of_buildsClass hclass).symm
  rw [Module.wire, h.rootClass_eq, h.comment_eq, hclasses]

/-! ## Collisions in other languages -/

section Transfer

variable {language other : Language}

/-- The members and parameters that are distinct in one language are so in the other, if the other
merges less. -/
theorem Distinct.transfer {set : ApiSet}
    (hother : ∀ a b, (styleOf other).identifier a = (styleOf other).identifier b →
      (styleOf language).identifier a = (styleOf language).identifier b)
    (h : Distinct (styleOf language) set) : Distinct (styleOf other) set where
  members := by
    have hnames : ∀ style : Style,
        setIdentifiers style set.sets ++ actionIdentifiers style set.actions =
          (set.sets.map ApiSet.name ++ set.actions.map Action.name).map style.identifier := by
      intro style
      rw [List.map_append, List.map_map, List.map_map]
      rfl
    have hmembers := h.members
    rw [hnames] at hmembers ⊢
    exact nodup_map_of_nodup_map hother hmembers
  parameters a ha :=
    nodup_map_of_nodup_map (fun p q => hother p.name q.name) (h.parameters a ha)

theorem exists_assemble_transfer {config : Config} {client : Client}
    (hcasing : (styleOf other).casing = (styleOf language).casing ∨
      (styleOf other).casing = .snake)
    (h : ∃ m, assemble language config client = .ok m) :
    ∃ m, assemble other config client = .ok m := by
  rw [exists_assemble_iff] at h ⊢
  refine ⟨h.1, fun visit hvisit => ?_⟩
  obtain ⟨hdistinct, hslots⟩ := h.2 visit hvisit
  exact ⟨hdistinct.transfer fun _ _ => identifier_eq_of_identifier_eq hcasing, hslots⟩

end Transfer

/-- JavaScript has a module for a client exactly if TypeScript has one, and then Python has one as
well.  All modules of a client have one wire form. -/
theorem assemble_agree (config : Config) (client : Client) :
    ((∃ m, assemble .javaScript config client = .ok m) ↔
      ∃ m, assemble .typeScript config client = .ok m) ∧
    ((∃ m, assemble .javaScript config client = .ok m) →
      ∃ m, assemble .python config client = .ok m) ∧
    ∀ language other m m', assemble language config client = .ok m →
      assemble other config client = .ok m' → m.wire = m'.wire := by
  refine ⟨⟨?_, ?_⟩, ?_, ?_⟩
  · exact exists_assemble_transfer (Or.inl rfl)
  · exact exists_assemble_transfer (Or.inl rfl)
  -- names that collide in snake case collide in camel case already
  · exact exists_assemble_transfer (Or.inr rfl)
  · intro language other m m' hm hm'
    rw [wire_of_assembles (assemble_eq_ok_iff.mp hm), wire_of_assembles (assemble_eq_ok_iff.mp hm')]

end Assembly
end ClientForge
