import ClientForge.Document.Yaml.Tag
import ClientForge.Document.Yaml.Token
/-!
# Node graphs

The nodes that the tokens of a document describe, by number. Items, keys and values are given
by their numbers, because an alias is a second way to the node with its anchor. A node is known
under its anchor from its beginning on, so that it may be a part of itself.
-/

namespace ClientForge
namespace Yaml

/-- What a node holds. -/
inductive Content where
  | scalar (text : String)
  | sequence (items : List Nat)
  | mapping (entries : List (Nat × Nat))
deriving DecidableEq, Repr

/-- A node and the type of its value. -/
structure Node where
  tag : Tag
  content : Content
deriving DecidableEq, Repr

/-- The nodes of a document; the number of a node is its place. -/
abbrev Graph := Array Node

namespace Graph

/-- The tokens that are left and what comes after them, the meaning of tag handles, the numbers
of the nodes with anchors, and the nodes so far. -/
structure Reading where
  tokens : List Token
  ending : Option Fault := none
  handles : List (String × String)
  anchors : List (String × Nat) := []
  nodes : Graph := #[]

/-- A step of reading. -/
abbrev Reader := StateT Reading (Except Fault)

/-- The next token, none at the end of the text. The fault after the tokens is met only here. -/
def peek : Reader (Option Token) := do
  let r ← get
  match r.tokens, r.ending with
  | token :: _, _ => pure (some token)
  | [], none => pure none
  | [], some fault => throw fault

/-- The next token is passed over. -/
def skip : Reader Unit :=
  modify fun r => { r with tokens := r.tokens.drop 1 }

/-- Whether the next token is one of some tokens. -/
def isAt (tokens : List Token) : Reader Bool := do
  match ← peek with
  | some token => pure (tokens.contains token)
  | none => pure false

/-- A new node. -/
def add (node : Node) : Reader Nat := do
  let r ← get
  set { r with nodes := r.nodes.push node }
  pure r.nodes.size

/-- A new node that is known under its anchor, which has to be a new one. -/
def place (anchor : Option String) (node : Node) : Reader Nat := do
  match anchor with
  | none => add node
  | some name =>
    let r ← get
    if (r.anchors.lookup name).isSome then throw .malformed
    else
      set { r with anchors := (name, r.nodes.size) :: r.anchors }
      add node

/-- The content of a node becomes known. -/
def fill (id : Nat) (content : Content) : Reader Unit :=
  modify fun r => { r with nodes := r.nodes.modify id fun node => { node with content := content } }

/-- A node that is not written. -/
def addAbsent : Reader Nat :=
  add ⟨.null, .scalar ""⟩

/-- The anchor and the tag in front of a node, in either order. -/
def properties : Reader (Option String × Option (Option String × String)) := do
  match ← peek with
  | some (.anchor name) =>
    skip
    match ← peek with
    | some (.tag handle suffix) =>
      skip
      pure (some name, some (handle, suffix))
    | _ => pure (some name, none)
  | some (.tag handle suffix) =>
    skip
    match ← peek with
    | some (.anchor name) =>
      skip
      pure (some name, some (handle, suffix))
    | _ => pure (none, some (handle, suffix))
  | _ => pure (none, none)

/-- What the tag in front of a node says. A lone exclamation mark leaves the type to the form of
the content. -/
inductive Given where
  | nothing
  | form
  | type (tag : Tag)
deriving DecidableEq, Repr

/-- The address of a tag read as a type. -/
def Given.ofUri (uri : String) : Given :=
  if uri = "!" then .form else .type (.ofUri uri)

/-- The type of a collection that has a type by default. -/
def Given.orElse (given : Given) (usual : Tag) : Tag :=
  match given with
  | .type tag => tag
  | _ => usual

/-- The type of a scalar: quoted texts without a tag are strings. -/
def Given.ofScalar (given : Given) (plain : Bool) (text : String) : Tag :=
  match given with
  | .type tag => tag
  | .form => .ofText text
  | .nothing => if plain then .ofText text else .str

/-- The meaning of a written tag; its handle has to be known. -/
def readGiven : Option (Option String × String) → Reader Given
  | none => pure .nothing
  | some (none, suffix) => pure (.ofUri suffix)
  | some (some handle, suffix) => do
    match (← get).handles.lookup handle with
    | some start => pure (.ofUri (start ++ suffix))
    | none => throw .malformed

/-- A collection: its node comes before its parts. -/
def collect {α : Type} (anchor : Option String) (tag : Tag) (empty : Content) (parts : Reader α)
    (content : α → Content) : Reader Nat := do
  let id ← place anchor ⟨tag, empty⟩
  let found ← parts
  fill id (content found)
  pure id

mutual

/-- The node that the tokens begin with. Blocks are allowed outside of brackets only; a sequence
may stand directly at the margin of its mapping. -/
def read : Nat → Bool → Bool → Reader Nat
  | 0, _, _ => throw .malformed
  | fuel + 1, block, atMargin => do
    match ← peek with
    | some (.alias name) =>
      skip
      match (← get).anchors.lookup name with
      | some id => pure id
      | none => throw .malformed
    | _ =>
      let (anchor, written) ← properties
      let given ← readGiven written
      let sequence (parts : Reader (List Nat)) : Reader Nat :=
        collect anchor (given.orElse .seq) (.sequence []) parts .sequence
      let mapping (parts : Reader (List (Nat × Nat))) : Reader Nat :=
        collect anchor (given.orElse .map) (.mapping []) parts .mapping
      match ← peek with
      | some (.scalar text plain) =>
        skip
        place anchor ⟨given.ofScalar plain text, .scalar text⟩
      | token =>
        if atMargin ∧ token = some .dash then sequence (readMarginItems fuel)
        else if token = some .openBracket then sequence (skip *> readFlowItems fuel true)
        else if token = some .openBrace then mapping (skip *> readFlowEntries fuel true)
        else if block ∧ token = some .blockSequence then sequence (skip *> readItems fuel)
        else if block ∧ token = some .blockMapping then mapping (skip *> readEntries fuel)
        else if anchor.isSome ∨ given ≠ .nothing then
          place anchor ⟨given.ofScalar true "", .scalar ""⟩
        else throw .malformed

/-- A node, absent if one of some tokens comes instead. -/
def readUnless : Nat → Bool → Bool → List Token → Reader Nat
  | 0, _, _, _ => throw .malformed
  | fuel + 1, block, atMargin, stops => do
    if ← isAt stops then addAbsent else read fuel block atMargin

/-- The value after a key, absent if there is no colon. -/
def readValue : Nat → Bool → List Token → Reader Nat
  | 0, _, _ => throw .malformed
  | fuel + 1, block, stops => do
    if ← isAt [.value] then
      skip
      readUnless fuel block block stops
    else addAbsent

/-- The items of a block sequence, up to the end of the block. -/
def readItems : Nat → Reader (List Nat)
  | 0 => throw .malformed
  | fuel + 1 => do
    if ← isAt [.dash] then
      skip
      let item ← readUnless fuel true false [.dash, .blockEnd]
      let items ← readItems fuel
      pure (item :: items)
    else if ← isAt [.blockEnd] then
      skip
      pure []
    else throw .malformed

/-- The items of a sequence at the margin of its mapping. -/
def readMarginItems : Nat → Reader (List Nat)
  | 0 => throw .malformed
  | fuel + 1 => do
    if ← isAt [.dash] then
      skip
      let item ← readUnless fuel true false [.dash, .key, .value, .blockEnd]
      let items ← readMarginItems fuel
      pure (item :: items)
    else pure []

/-- The entries of a block mapping, up to the end of the block. -/
def readEntries : Nat → Reader (List (Nat × Nat))
  | 0 => throw .malformed
  | fuel + 1 => do
    if ← isAt [.key] then
      skip
      let key ← readUnless fuel true true [.key, .value, .blockEnd]
      let value ← readValue fuel true [.key, .value, .blockEnd]
      let entries ← readEntries fuel
      pure ((key, value) :: entries)
    else if ← isAt [.blockEnd] then
      skip
      pure []
    else throw .malformed

/-- The items of a sequence in brackets; an item with a colon is a mapping of one entry. -/
def readFlowItems : Nat → Bool → Reader (List Nat)
  | 0, _ => throw .malformed
  | fuel + 1, first => do
    if ← isAt [.closeBracket] then
      skip
      pure []
    else
      if !first then if ← isAt [.comma] then skip else throw .malformed
      if ← isAt [.closeBracket] then
        skip
        pure []
      else
        let item ← if ← isAt [.key] then
            collect none .map (.mapping []) (skip *> readFlowPair fuel .closeBracket)
              fun entry => .mapping [entry]
          else read fuel false false
        let items ← readFlowItems fuel false
        pure (item :: items)

/-- The entries of a mapping in braces; a lone node is a key without a value. -/
def readFlowEntries : Nat → Bool → Reader (List (Nat × Nat))
  | 0, _ => throw .malformed
  | fuel + 1, first => do
    if ← isAt [.closeBrace] then
      skip
      pure []
    else
      if !first then if ← isAt [.comma] then skip else throw .malformed
      if ← isAt [.closeBrace] then
        skip
        pure []
      else
        let entry ← if ← isAt [.key] then skip *> readFlowPair fuel .closeBrace
          else do
            let key ← read fuel false false
            let value ← addAbsent
            pure (key, value)
        let entries ← readFlowEntries fuel false
        pure (entry :: entries)

/-- A key between brackets and its value. -/
def readFlowPair : Nat → Token → Reader (Nat × Nat)
  | 0, _ => throw .malformed
  | fuel + 1, close => do
    let key ← readUnless fuel false false [.value, .comma, close]
    let value ← readValue fuel false [.comma, close]
    pure (key, value)

end

/-- The handles that every document has. -/
def defaultHandles : List (String × String) :=
  [("!", "!"), ("!!", Tag.standard)]

/-- The directives in front of a document: a version of the language, at most once, and tag
handles, each at most once. So many tokens are looked at. -/
def readDirectives : Nat → Bool → List (String × String) → Reader (List (String × String))
  | 0, _, _ => throw .malformed
  | fuel + 1, versioned, handles => do
    match ← peek with
    | some (.directive d) =>
      skip
      match d with
      | .version major =>
        if versioned || major ≠ 1 then throw .malformed else readDirectives fuel true handles
      | .handle handle uri =>
        if (handles.lookup handle).isSome then throw .malformed
        else readDirectives fuel versioned ((handle, uri) :: handles)
      | .other => readDirectives fuel versioned handles
    | _ => pure (handles ++ defaultHandles)

/-- Markers for the end of a document are passed over. So many tokens are looked at. -/
def skipEnds : Nat → Reader Unit
  | 0 => pure ()
  | fuel + 1 => do
    if ← isAt [.documentEnd] then
      skip
      skipEnds fuel

/-- Whether a document with a marker has no content. -/
def atDocumentEnd : Reader Bool := do
  match ← peek with
  | none => pure true
  | some token => pure (token matches .documentStart | .documentEnd | .directive _)

/-- The root of the text's only document, none for a text without one. -/
def readDocument (fuel : Nat) : Reader (Option Nat) := do
  match ← peek with
  | none => pure none
  | some token =>
    let marked := token matches .documentStart | .directive _
    let root ← if marked then do
        let handles ← readDirectives fuel false []
        modify fun r => { r with handles := handles }
        if ← isAt [.documentStart] then skip else throw .malformed
        if ← atDocumentEnd then addAbsent else read fuel true false
      else read fuel true false
    skipEnds fuel
    match ← peek with
    | none => pure (some root)
    | some _ =>
      let _ ← readDirectives fuel false []
      throw .malformed

/-- The nodes of tokens with a fault after them, and the root among them. -/
def ofTokens (tokens : List Token) (ending : Option Fault) :
    Except Fault (Graph × Option Nat) := do
  let start : Reading := { tokens := tokens, ending := ending, handles := defaultHandles }
  let (root, r) ← (readDocument (3 * tokens.length + 3)).run start
  pure (r.nodes, root)

end Graph
end Yaml
end ClientForge
