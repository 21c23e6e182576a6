import ClientForge.Scope
/-!
# Context trees

The scopes of a document in the order in which they were opened. A context knows its position
and the position of the context that encloses it, which is smaller than its own.
-/

namespace ClientForge

/-- A scope with its place in a tree. -/
structure Context extends Scope where
  index : Nat
  parent : Option Nat
deriving Repr

/-- All contexts of a document, root first. -/
structure ContextTree where
  contexts : List Context := []
deriving Repr

namespace ContextTree

/-- Why a step on a tree is refused. -/
inductive Fault where
  | secondRoot
  | outOfRange
deriving DecidableEq, Repr

/-- The wording of a refused step. -/
def Fault.message : Fault → String
  | .secondRoot => "Context tree already has a root"
  | .outOfRange => "list index out of range"

/-- How many contexts there are. -/
def size (t : ContextTree) : Nat :=
  t.contexts.length

/-- The context at a position; a negative position counts from the end. -/
def get (t : ContextTree) (position : Int) : Except Fault Context :=
  let index : Int := if position < 0 then position + t.size else position
  if index < 0 then .error .outOfRange
  else
    match t.contexts[index.toNat]? with
    | none => .error .outOfRange
    | some context => .ok context

/-- The root of a tree that has one. -/
def root (t : ContextTree) : Except Fault Context :=
  t.get 0

/-- The context that a new scope gets. -/
def contextFor (t : ContextTree) (scope : Scope) (parent : Option Nat) : Context :=
  { toScope := scope, index := t.size, parent := parent }

/-- The tree with one more context; only the first may stand without a parent. -/
def add (t : ContextTree) (scope : Scope) (parent : Option Nat) : Except Fault ContextTree :=
  if parent.isNone && !t.contexts.isEmpty then .error .secondRoot
  else .ok ⟨t.contexts ++ [t.contextFor scope parent]⟩

/-- The tree with an attribute set on the context at an index. -/
def assign (t : ContextTree) (index : Nat) (name : String) (value : Attribute) : ContextTree :=
  ⟨t.contexts.modify index fun c => { c with toScope := c.toScope.assign name value }⟩

/-- The contexts above a parent link, nearest first. Each step up goes to a smaller index, so
no chain is longer than the tree. -/
def ancestorsFrom (t : ContextTree) : Nat → Option Nat → List Context
  | 0, _ => []
  | _, none => []
  | steps + 1, some index =>
    match t.contexts[index]? with
    | none => []
    | some context => context :: ancestorsFrom t steps context.parent

/-- The contexts that enclose a context, nearest first. -/
def ancestors (t : ContextTree) (c : Context) : List Context :=
  t.ancestorsFrom t.size c.parent

/-- The context above a context. -/
def parentOf (t : ContextTree) (c : Context) : Option Context :=
  (t.ancestors c).head?

/-- How many contexts enclose a context. -/
def depth (t : ContextTree) (c : Context) : Nat :=
  (t.ancestors c).length

/-- The scopes in which a context's references are read. -/
def lineage (t : ContextTree) (c : Context) : List Scope :=
  (c :: t.ancestors c).map Context.toScope

/-- The attribute that a reference reads from a context. -/
def resolve (t : ContextTree) (c : Context) (hops : Nat) (attr : String) :
    Except Scope.Fault Attribute :=
  Scope.resolve (t.lineage c) hops attr

end ContextTree
end ClientForge
