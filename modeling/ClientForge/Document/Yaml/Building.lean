import ClientForge.Document.Yaml.Graph
import ClientForge.Document.Yaml.Scalar
/-!
# Building values from nodes

The value of every node that can be reached from the root. A collection begins empty and waits
until all collections before it are filled, so that of several faults the shallowest one is met
first, and a collection may be a part of itself. When a mapping is filled, its merge keys are
replaced by the entries of the mappings that they name; those come before its own entries, and a
repeated key keeps its first place and its last value.
-/

namespace ClientForge
namespace Yaml

/-- What has been built of a node; parts are given by their numbers. The undefined numbers among
the keys of a mapping are told apart by a mark. -/
inductive Built where
  | whole (value : Value) (mark : Nat)
  | list (items : List Nat)
  | pairs (items : List (Nat × Nat))
  | set (keys : List (Value × Nat))
  | map (entries : List ((Value × Nat) × Nat))
deriving Repr

/-- The nodes, what has been built of each, and the collections that wait, the last one first. -/
structure Building where
  nodes : Graph
  built : Array (Option Built)
  waiting : List Nat := []

namespace Building

/-- The node with a number. -/
def node (b : Building) (id : Nat) : Node :=
  b.nodes[id]?.getD ⟨.unknown, .scalar ""⟩

/-- The entries of a mapping. -/
def entries (b : Building) (id : Nat) : List (Nat × Nat) :=
  match (b.node id).content with
  | .mapping entries => entries
  | _ => []

/-- A mapping gets other entries. -/
def setEntries (b : Building) (id : Nat) (entries : List (Nat × Nat)) : Building :=
  { b with nodes := b.nodes.modify id fun node => { node with content := .mapping entries } }

/-- The sign for a default value is an ordinary string where it is a key. -/
def settleKeys (b : Building) (entries : List (Nat × Nat)) : Building :=
  let settle (node : Node) : Node := if node.tag = .value then { node with tag := .str } else node
  { b with nodes := entries.foldl (fun nodes (key, _) => nodes.modify key settle) b.nodes }

/-- Whether an entry is a merge. -/
def isMerge (b : Building) (entry : Nat × Nat) : Bool :=
  (b.node entry.1).tag == .merge

/-- The merge keys of a mapping are replaced by the entries of the mappings that they name. Of a
sequence of mappings the last one comes first. So many merges are looked at in a row. -/
def flatten : Nat → Nat → List (Nat × Nat) → Building → Except Fault Building
  | 0, _, _, _ => .error .malformed
  | fuel + 1, id, merged, b =>
    let own := b.entries id
    let before := own.takeWhile (!b.isMerge ·)
    match own.drop before.length with
    | [] => .ok ((b.settleKeys own).setEntries id (merged ++ own))
    | (_, source) :: rest => do
      let b := b.setEntries id (before ++ rest)
      match (b.node source).content with
      | .mapping _ =>
        let b ← flatten fuel source [] b
        flatten fuel id (merged ++ b.entries source) b
      | .sequence items =>
        let (found, b) ← items.foldlM (fun (found, b) item =>
          match (b.node item).content with
          | .mapping _ => (flatten fuel item [] b).map fun b => (b.entries item ++ found, b)
          | _ => .error .malformed) ([], b)
        flatten fuel id (merged ++ found) b
      | .scalar _ => .error .malformed

/-- The number of entries of all mappings. -/
def entryCount (b : Building) : Nat :=
  b.nodes.foldl (fun n node =>
    match node.content with
    | .mapping entries => n + entries.length
    | _ => n) 0

/-- The text of a node that has to be a scalar. A mapping stands for the default value in it. -/
def textOf (b : Building) : Nat → Nat → Except Fault String
  | 0, _ => .error .malformed
  | fuel + 1, id =>
    match (b.node id).content with
    | .scalar text => .ok text
    | .mapping entries =>
      match entries.find? fun (key, _) => (b.node key).tag == .value with
      | some (_, value) => textOf b fuel value
      | none => .error .malformed
    | .sequence _ => .error .malformed

/-- Something has been built of a node. -/
def record (b : Building) (id : Nat) (built : Built) : Building :=
  { b with built := b.built.setIfInBounds id (some built) }

/-- A collection waits to be filled. -/
def wait (b : Building) (id : Nat) (empty : Built) : Building :=
  { b.record id empty with waiting := id :: b.waiting }

/-- The mark of a number: undefined numbers that are written as such share one. -/
def markOf (b : Building) (id : Nat) (text : String) : Nat :=
  if isUndefinedWord text then b.nodes.size else id

/-- A value is begun: scalars are complete, collections wait. -/
def build (b : Building) (id : Nat) : Except Fault Building :=
  if (b.built[id]?.join).isSome then .ok b
  else
    let node := b.node id
    match node.tag with
    | .seq => .ok (b.wait id (.list []))
    | .map => .ok (b.wait id (.map []))
    | .set => .ok (b.wait id (.set []))
    | .pairs => .ok (b.wait id (.pairs []))
    | tag => do
      -- An unknown tag is a fault whatever the node holds.
      if (scalarValue? tag "").isNone then .error .malformed
      let text ← b.textOf (b.nodes.size + 1) id
      if tag = .time ∧ !(node.content matches .scalar _) then .error (.value .timeOfMapping)
      match scalarValue? tag text with
      | none => .error .malformed
      | some result => result.map fun value => b.record id (.whole value (b.markOf id text))

/-- All of some nodes are begun, in order. -/
def buildAll (b : Building) (ids : List Nat) : Except Fault Building :=
  ids.foldlM build b

/-- The value of a node as a key; collections are no keys. -/
def keyOf (b : Building) (id : Nat) : Except Fault (Value × Nat) :=
  match b.built[id]?.join with
  | some (.whole value mark) => .ok (value, mark)
  | _ => .error .malformed

/-- Whether two keys are the same. An undefined number is the same as itself only. -/
def sameKey (k l : Value × Nat) : Bool :=
  match k.1, l.1 with
  | .float .nan, .float .nan => k.2 == l.2
  | v, w => v.sameKey w

/-- Entries with a key set. -/
def put (entries : List ((Value × Nat) × Nat)) (key : Value × Nat) (value : Nat) :
    List ((Value × Nat) × Nat) :=
  match entries with
  | [] => [(key, value)]
  | (k, v) :: rest => if sameKey k key then (k, value) :: rest else (k, v) :: put rest key value

/-- The entries of a mapping are begun, in order. -/
def buildEntries (b : Building) (id : Nat) :
    Except Fault (List ((Value × Nat) × Nat) × Building) :=
  match (b.node id).content with
  | .mapping _ => do
    let b ← b.flatten (b.entryCount + 1) id []
    (b.entries id).foldlM (fun (found, b) (key, value) => do
      let b ← b.build key
      let known ← b.keyOf key
      let b ← b.build value
      pure (put found known value, b)) ([], b)
  | _ => .error .malformed

/-- The one entry of a mapping that stands for a pair. -/
def pairOf (b : Building) (id : Nat) : Except Fault (Nat × Nat) :=
  match (b.node id).content with
  | .mapping [entry] => .ok entry
  | _ => .error .malformed

/-- The pairs of a sequence are begun, in order. -/
def buildPairs (b : Building) (items : List Nat) :
    Except Fault (List (Nat × Nat) × Building) :=
  items.foldlM (fun (found, b) item => do
    let (key, value) ← b.pairOf item
    let b ← b.build key
    let b ← b.build value
    pure (found ++ [(key, value)], b)) ([], b)

/-- A collection is filled. -/
def complete (b : Building) (id : Nat) : Except Fault Building :=
  let node := b.node id
  match node.tag, node.content with
  | .seq, .sequence items => (b.buildAll items).map (·.record id (.list items))
  | .pairs, .sequence items => (b.buildPairs items).map fun (pairs, b) => b.record id (.pairs pairs)
  | .map, .mapping _ => (b.buildEntries id).map fun (found, b) => b.record id (.map found)
  | .set, .mapping _ =>
    (b.buildEntries id).map fun (found, b) => b.record id (.set (found.map (·.1)))
  | _, _ => .error .malformed

/-- The waiting collections are filled, round by round. Each waits once, so that there are no
more rounds than nodes. -/
def completeAll : Nat → Building → Except Fault Building
  | 0, b => .ok b
  | fuel + 1, b =>
    match b.waiting with
    | [] => .ok b
    | waiting => do
      let b ← waiting.reverse.foldlM complete { b with waiting := [] }
      completeAll fuel b

/-- A value that is shown with others around it. -/
def pairValue (key value : Value) : Value :=
  let shown := do
    let first ← key.shown?
    let second ← value.shown?
    pure ("(" ++ first ++ ", " ++ second ++ ")")
  .other ⟨"tuple", shown, false⟩

/-- The value of a set. -/
def setValue (keys : List Value) : Value :=
  let shown := if keys.isEmpty then some "set()"
    else (Value.shownItems? keys).map fun texts => "\x7b" ++ Text.join ", " texts ++ "\x7d"
  .other ⟨"set", shown, keys.isEmpty⟩

/-- A sequence inside itself; it is not shown again. -/
def innerList : Value :=
  .other ⟨"list", some "[...]", false⟩

/-- A mapping inside itself; it is not shown again. -/
def innerMap : Value :=
  .other ⟨"dict", some "\x7b...\x7d", false⟩

/-- The value of a node, given the nodes around it. Values are finite: a mapping that is a part of
itself is there once more, and stands for itself inside that. -/
def valueOf (b : Building) : Nat → List Nat → Nat → Value
  | 0, _, _ => .null
  | fuel + 1, around, id =>
    let times := around.count id
    let part := valueOf b fuel (id :: around)
    match b.built[id]?.join with
    | none => .null
    | some (.whole value _) => value
    | some (.set keys) => setValue (keys.map (·.1))
    | some (.list items) => if 0 < times then innerList else .list (items.map part)
    | some (.pairs items) =>
      if 0 < times then innerList
      else .list (items.map fun (key, value) => pairValue (part key) (part value))
    | some (.map entries) =>
      if 1 < times then innerMap
      else .map (entries.map fun (key, value) => (key.1, part value))

end Building

/-- The value of the node with a number. -/
def Graph.value (nodes : Graph) (root : Nat) : Except Fault Value := do
  let b : Building := { nodes := nodes, built := Array.replicate nodes.size none }
  let b ← b.build root
  let b ← b.completeAll (nodes.size + 1)
  pure (b.valueOf (2 * nodes.size + 2) [] root)

end Yaml
end ClientForge
