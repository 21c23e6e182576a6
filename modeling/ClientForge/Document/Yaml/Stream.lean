import ClientForge.Document.Yaml.Lexical
/-!
# The token stream of a YAML text

Reading goes from token to token. Outside of brackets the indentation opens and closes blocks;
the margin of a block is the column after the one its entries begin at, and the text itself has
margin zero. A token that may begin a key is kept in mind until its colon is found, the line
ends or the token is too far away.

Where reading fails, the tokens before the fault still count, up to the first one of which it is
not known whether it begins a key.
-/

namespace ClientForge
namespace Yaml

/-- A token that may begin a key. It has to if it stands where an entry of its block begins. -/
structure PendingKey where
  level : Nat
  slot : Nat
  required : Bool
  index : Nat
  line : Nat
  column : Nat
deriving DecidableEq, Repr

/-- The state of reading: the place, the number of open brackets, the margins of the open
blocks, and the tokens so far, the last one first. -/
structure Stream where
  place : Cursor
  level : Nat := 0
  margins : List Nat := []
  keyAllowed : Bool := true
  pending : List PendingKey := []
  tokens : List Token := []
  count : Nat := 0
  marks : List KeyMark := []
  finished : Bool := false
deriving DecidableEq, Repr

namespace Stream

/-- The margin of the innermost block. -/
def margin (s : Stream) : Nat :=
  s.margins.headD 0

/-- The most characters between a key and its colon. -/
def keyReach : Nat := 1024

/-- One more token. -/
def emit (s : Stream) (token : Token) : Stream :=
  { s with tokens := token :: s.tokens, count := s.count + 1 }

/-- One more token of so many characters. -/
def sign (s : Stream) (token : Token) (size : Nat) : Stream :=
  { s.emit token with place := s.place.advance size }

/-- The blocks beyond a margin are closed, except inside brackets. -/
def unwind (s : Stream) (floor : Nat) : Stream :=
  if s.level ≠ 0 then s
  else
    let closed := s.margins.takeWhile (floor < ·)
    closed.foldl (fun s _ => s.emit .blockEnd) { s with margins := s.margins.drop closed.length }

/-- A block at a column, unless there is one already; its token is given. -/
def openBlock (s : Stream) (column : Nat) (token : Token) : Stream :=
  if s.margin ≤ column then { s.emit token with margins := (column + 1) :: s.margins } else s

/-- The possible key between the same brackets is given up. -/
def dropKey (s : Stream) : Except Fault Stream :=
  if s.pending.any fun key => key.level = s.level && key.required then .error .malformed
  else .ok { s with pending := s.pending.filter (·.level ≠ s.level) }

/-- The next token may begin a key. -/
def noteKey (s : Stream) : Except Fault Stream :=
  if s.keyAllowed then
    s.dropKey.map fun s =>
      let key : PendingKey :=
        { level := s.level, slot := s.count
          required := s.level = 0 && s.margin = s.place.column + 1
          index := s.place.index, line := s.place.line, column := s.place.column }
      { s with pending := key :: s.pending }
  else .ok s

/-- Keys on earlier lines or too far away are given up. -/
def dropStale (s : Stream) : Except Fault Stream :=
  let isStale (key : PendingKey) : Bool :=
    key.line ≠ s.place.line || keyReach < s.place.index - key.index
  if s.pending.any fun key => isStale key && key.required then .error .malformed
  else .ok { s with pending := s.pending.filter (!isStale ·) }

/-- Spaces, comments and line ends before the next token. After a line end outside of brackets
a key may begin. -/
def skipGap : Nat → Stream → Stream
  | 0, s => s
  | fuel + 1, s =>
    let next := s.place.skip (· == ' ')
    let next := if next.peek = some '#' then next.skip (!isBreak ·) else next
    match next.lineBreak with
    | ([], _) => { s with place := next }
    | (_, after) =>
      skipGap fuel { s with place := after, keyAllowed := s.keyAllowed || s.level = 0 }

/-- A line about the document, or a marker between documents. -/
def marker (s : Stream) : Except Fault Stream :=
  (s.unwind 0).dropKey.map fun s => { s with keyAllowed := false }

/-- An opening bracket or brace. -/
def openFlow (s : Stream) (token : Token) : Except Fault Stream :=
  s.noteKey.map fun s => { s.sign token 1 with level := s.level + 1, keyAllowed := true }

/-- A closing bracket or brace. -/
def closeFlow (s : Stream) (token : Token) : Except Fault Stream :=
  if s.level = 0 then .error .malformed
  else s.dropKey.map fun s => { s.sign token 1 with level := s.level - 1, keyAllowed := false }

/-- A comma between brackets. -/
def flowEntry (s : Stream) : Except Fault Stream :=
  s.dropKey.map fun s => { s.sign .comma 1 with keyAllowed := true }

/-- The dash of a sequence entry. -/
def blockEntry (s : Stream) : Except Fault Stream :=
  if s.level = 0 ∧ !s.keyAllowed then .error .malformed
  else
    let s := if s.level = 0 then s.openBlock s.place.column .blockSequence else s
    s.dropKey.map fun s => { s.sign .dash 1 with keyAllowed := true }

/-- The question mark of a key. -/
def explicitKey (s : Stream) : Except Fault Stream :=
  if s.level = 0 ∧ !s.keyAllowed then .error .malformed
  else
    let s := if s.level = 0 then s.openBlock s.place.column .blockMapping else s
    s.dropKey.map fun s => { s.sign .key 1 with keyAllowed := s.level = 0 }

/-- The colon before a value: its key is the pending one, or there was a question mark or
nothing. -/
def mappingValue (s : Stream) : Except Fault Stream :=
  match s.pending.find? (·.level = s.level) with
  | some key =>
    let opens := s.level = 0 && s.margin ≤ key.column
    let s := { s with
      pending := s.pending.filter (·.level ≠ s.level)
      marks := ⟨key.slot, opens⟩ :: s.marks
      margins := if opens then (key.column + 1) :: s.margins else s.margins
      keyAllowed := false }
    .ok (s.sign .value 1)
  | none =>
    if s.level = 0 ∧ !s.keyAllowed then .error .malformed
    else
      let s := if s.level = 0 then s.openBlock s.place.column .blockMapping else s
      .ok { s.sign .value 1 with keyAllowed := s.level = 0 }

/-- A token that may begin a key, and the place after it. -/
def named (s : Stream) (read : Cursor → Except Fault (Token × Cursor)) : Except Fault Stream := do
  let s ← s.noteKey
  let (token, after) ← read s.place
  pure { s.emit token with place := after, keyAllowed := false }

/-- A block scalar. -/
def blockScalar (s : Stream) : Except Fault Stream := do
  let s ← s.dropKey
  let (text, after) ← readBlock s.margin s.place
  pure { s.emit (.scalar text false) with place := after, keyAllowed := true }

/-- A plain scalar. -/
def plainScalar (s : Stream) : Except Fault Stream :=
  let (text, crossed, after) := readPlain (s.level ≠ 0) s.margin s.place
  s.noteKey.map fun s => { s.emit (.scalar text true) with place := after, keyAllowed := crossed }

/-- Whether a plain scalar may begin with a character, given the next one. -/
def beginsPlain (flow : Bool) (c : Char) (next : Option Char) : Bool :=
  !(atBlank (some c) || "-?:,[]\x7b\x7d#&*!|>'\"%@\x60".toList.contains c) ||
    (!atBlank next && (c == '-' || (!flow && (c == '?' || c == ':'))))

/-- The token that begins with a character. -/
def fetch (s : Stream) (c : Char) : Except Fault Stream :=
  let next := s.place.peekAt 1
  let flow := s.level ≠ 0
  let atStart := s.place.column = 0
  if c = '%' ∧ atStart then do
    let s ← s.marker
    let (token, after) ← readDirective s.place
    pure { s.emit token with place := after }
  else if atStart ∧ s.place.atMarker ['-', '-', '-'] then
    s.marker.map (·.sign .documentStart 3)
  else if atStart ∧ s.place.atMarker ['.', '.', '.'] then
    s.marker.map (·.sign .documentEnd 3)
  else if c = '[' then s.openFlow .openBracket
  else if c = '\x7b' then s.openFlow .openBrace
  else if c = ']' then s.closeFlow .closeBracket
  else if c = '\x7d' then s.closeFlow .closeBrace
  else if c = ',' then s.flowEntry
  else if c = '-' ∧ atBlank next then s.blockEntry
  else if c = '?' ∧ (flow ∨ atBlank next) then s.explicitKey
  else if c = ':' ∧ (flow ∨ atBlank next) then s.mappingValue
  else if c = '*' then
    s.named fun here => (readName here).map fun (name, after) => (.alias name, after)
  else if c = '&' then
    s.named fun here => (readName here).map fun (name, after) => (.anchor name, after)
  else if c = '!' then s.named readTag
  else if (c = '|' ∨ c = '>') ∧ ¬flow then s.blockScalar
  else if c = '\'' ∨ c = '"' then
    s.named fun here => (readQuoted c here).map fun (text, after) => (.scalar text false, after)
  else if beginsPlain flow c next then s.plainScalar
  else .error .malformed

/-- The tokens up to and including the next one that the text has a sign for. -/
def advance (s : Stream) : Except Fault Stream := do
  let s := s.skipGap (s.place.rest.length + 1)
  let s ← s.dropStale
  let s := s.unwind (s.place.column + 1)
  match s.place.peek with
  | none => (s.unwind 0).dropKey.map fun s => { s with finished := true }
  | some c => s.fetch c

/-- All further tokens, and the fault that reading stops at. -/
def run : Nat → Stream → Stream × Option Fault
  | 0, s => (s, none)
  | fuel + 1, s =>
    match s.advance with
    | .error fault => (s, some fault)
    | .ok next => if next.finished then (next, none) else run fuel next

/-- The number of tokens that are certain: the first token that may still begin a key is not. -/
def certain (s : Stream) : Nat :=
  let pending := match s.dropStale with
    | .ok s => s.pending
    | .error _ => s.pending
  pending.foldl (fun n key => min n key.slot) s.count

/-- The place where reading begins: a byte order mark is passed over. -/
def start (cs : List Char) : Cursor :=
  let first : Cursor := ⟨cs, 0, 0, 0⟩
  if first.peek = some '\ufeff' then first.advance 1 else first

/-- The tokens of a text, and the fault after them. -/
def tokensOf (cs : List Char) : List Token × Option Fault :=
  if cs.all isAllowed then
    let (s, fault) := run (cs.length + 1) { place := start cs }
    let found := s.tokens.reverse
    (weave s.marks 0 (if fault.isNone then found else found.take s.certain), fault)
  else ([], some .malformed)

end Stream
end Yaml
end ClientForge
