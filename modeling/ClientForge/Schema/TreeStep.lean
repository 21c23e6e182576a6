import ClientForge.Schema.Binding
/-!
# Steps on a context tree

Single operations on a tree with their answers. A refused step leaves the tree as it was, and
so does every step that only reads.
-/

namespace ClientForge
namespace Schema

/-- An operation on a context tree. Contexts are given by position, negative ones from the
end. -/
inductive TreeStep where
  | add (scope : Scope) (parent : Option Int)
  | root
  | size
  | get (context : Int)
  | depth (context : Int)
  | parent (context : Int)
  | assign (context : Int) (name : String) (value : Attribute)
  | resolve (context : Int) (hops : Int) (attr : String) (path : Option String)
  | resolveText (context : Int) (text : String)
  | resolveUrl (context : Int) (raw : Value) (path : String)
deriving Repr

/-- What a step answers. -/
inductive TreeAnswer where
  | context (c : Context)
  | count (n : Nat)
  | position (index : Option Nat)
  | names (list : List String)
  | attribute (value : Attribute)
  | attributes (list : List Attribute)
  | url (template : UrlTemplate)
deriving Repr

/-- Why a step is refused. -/
inductive TreeFault where
  | tree (fault : ContextTree.Fault)
  | report (diagnostic : Diagnostic)
  | unwritable
deriving DecidableEq, Repr

/-- A step that a failure of binding stops. -/
def TreeFault.ofFailure (failure : Failure) : TreeFault :=
  match failure.diagnostic? with
  | some diagnostic => .report diagnostic
  | none => .unwritable

/-- The context at a position. -/
def contextAt (t : ContextTree) (position : Int) : Except TreeFault Context :=
  (t.get position).mapError .tree

/-- The position of a parent, checked. -/
def parentIndex (t : ContextTree) : Option Int → Except TreeFault (Option Nat)
  | none => .ok none
  | some position => (contextAt t position).map fun c => some c.index

/-- The attribute that a reference reads, reported at a path. -/
def readReference (t : ContextTree) (c : Context) (hops : Nat) (attr path : String) :
    Except TreeFault Attribute :=
  (t.resolve c hops attr).mapError fun fault => .report (fault.diagnostic path)

/-- The attributes that the references among segments read. -/
def readReferences (t : ContextTree) (c : Context) :
    List Segment → Except TreeFault (List Attribute)
  | [] => .ok []
  | .reference hops attr :: rest => do
    let value ← readReference t c hops attr c.path
    let others ← readReferences t c rest
    pure (value :: others)
  | _ :: rest => readReferences t c rest

/-- The answer of a step that only reads. -/
def TreeStep.read (t : ContextTree) : TreeStep → Except TreeFault TreeAnswer
  | .root => (t.root.mapError .tree).map .context
  | .size => .ok (.count t.size)
  | .get context => (contextAt t context).map .context
  | .depth context => (contextAt t context).map fun c => .count (t.depth c)
  | .parent context =>
    (contextAt t context).map fun c => .position ((t.parentOf c).map Context.index)
  | .resolve context hops attr path => do
    let c ← contextAt t context
    (readReference t c hops.toNat attr (path.getD c.path)).map .attribute
  | .resolveText context text => do
    let c ← contextAt t context
    let e ← (Expression.parse text).mapError fun fault => .report (fault.diagnostic "")
    (readReferences t c e.segments).map .attributes
  | .resolveUrl context raw path => do
    let c ← contextAt t context
    ((Schema.resolveUrl (t.lineage c) raw).mapError fun cause =>
      .ofFailure ⟨[path], cause⟩).map .url
  | .add .. => .error (.tree .outOfRange)
  | .assign .. => .error (.tree .outOfRange)

/-- The tree after a step, and the answer. -/
def TreeStep.run (t : ContextTree) : TreeStep → ContextTree × Except TreeFault TreeAnswer
  | .add scope above =>
    match parentIndex t above with
    | .error fault => (t, .error fault)
    | .ok index =>
      match t.add scope index with
      | .error fault => (t, .error (.tree fault))
      | .ok next => (next, .ok (.context (t.contextFor scope index)))
  | .assign context name value =>
    match contextAt t context with
    | .error fault => (t, .error fault)
    | .ok c =>
      (t.assign c.index name value, .ok (.names (c.toScope.assign name value).attributeNames))
  | step => (t, step.read t)

/-- The answers of steps on one tree, each with the tree after it. -/
def TreeStep.runAll (t : ContextTree) :
    List TreeStep → List (ContextTree × Except TreeFault TreeAnswer)
  | [] => []
  | step :: rest =>
    let (next, answer) := step.run t
    (next, answer) :: TreeStep.runAll next rest

end Schema
end ClientForge
