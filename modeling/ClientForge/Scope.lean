import ClientForge.Schema.Bound
/-!
# Scopes

A scope is what one node of the schema has resolved so far. A reference is read in a lineage: a
scope followed by the scopes that enclose it, the root last. It walks as many steps as it says
and reads the attribute there, and nowhere else.
-/

namespace ClientForge

/-- The kinds of schema nodes. -/
inductive NodeKind where
  | client
  | apiSet
  | action
deriving DecidableEq, Repr

/-- The word for a kind. -/
def NodeKind.name : NodeKind → String
  | .client => "client"
  | .apiSet => "apiset"
  | .action => "action"

/-- The kind with a given word. -/
def NodeKind.ofName? (s : String) : Option NodeKind :=
  [NodeKind.client, .apiSet, .action].find? (·.name = s)

/-- What an attribute of a scope may hold. -/
inductive Attribute where
  | url (template : UrlTemplate)
  | params (list : List Parameter)
  | value (v : Value)
deriving Repr

/-- What one node has resolved. -/
structure Scope where
  kind : NodeKind
  name : String
  path : String
  attributes : List (String × Attribute) := []
deriving Repr

namespace Scope

/-- The attribute with a given name. -/
def attribute? (s : Scope) (name : String) : Option Attribute :=
  s.attributes.lookup name

/-- Attributes with one set; a known one keeps its place. -/
def place (name : String) (value : Attribute) :
    List (String × Attribute) → List (String × Attribute)
  | [] => [(name, value)]
  | (n, v) :: rest => if n = name then (n, value) :: rest else (n, v) :: place name value rest

/-- The scope with an attribute set. -/
def assign (s : Scope) (name : String) (value : Attribute) : Scope :=
  { s with attributes := place name value s.attributes }

/-- The names of the attributes in alphabetical order. -/
def attributeNames (s : Scope) : List String :=
  (s.attributes.map Prod.fst).mergeSort (fun a b => decide (a ≤ b))

/-- Why a reference cannot be read. -/
inductive Fault where
  | pastRoot (hop hops : Nat)
  | missing (attr : String) (kind : NodeKind) (path : String)
deriving DecidableEq, Repr

/-- The wording of an unreadable reference. -/
def Fault.message : Fault → String
  | .pastRoot hop hops => s!"'!super' hop {hop} of {hops} goes past the root"
  | .missing attr kind path =>
    s!"No attribute '{attr}' on " ++ kind.name ++ " " ++ Diagnostic.location path

/-- The report of an unreadable reference. -/
def Fault.diagnostic (f : Fault) (path : String) : Diagnostic :=
  { kind := .contextResolution, message := f.message, path := path }

/-- The scope that is so many steps further up a lineage, for a reference of `hops` steps that has
taken `hop` of them. -/
def climb (hops hop : Nat) : Nat → List Scope → Except Fault Scope
  | _, [] => .error (.pastRoot hop hops)
  | 0, scope :: _ => .ok scope
  | left + 1, _ :: enclosing => climb hops (hop + 1) left enclosing

/-- Climbing drops a scope for each step; the step that fails is the one after the last scope. -/
theorem climb_eq_drop (hops hop left : Nat) (lineage : List Scope) :
    climb hops hop left lineage = (lineage.drop left).head?.elim
      (.error (.pastRoot (hop + lineage.length) hops)) .ok := by
  induction lineage generalizing hop left with
  | nil => simp [climb]
  | cons scope enclosing ih =>
      cases left with
      | zero => rfl
      | succ left =>
          rw [climb, ih, List.drop_succ_cons, List.length_cons]
          congr 3
          omega

/-- The attribute that a reference reads in a lineage. -/
def resolve (lineage : List Scope) (hops : Nat) (attr : String) : Except Fault Attribute :=
  match climb hops 0 hops lineage with
  | .error fault => .error fault
  | .ok scope =>
    match scope.attribute? attr with
    | none => .error (.missing attr scope.kind scope.path)
    | some value => .ok value

end Scope
end ClientForge
