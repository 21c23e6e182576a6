import ClientForge.Decimal.Reader
import ClientForge.Document.Utf8
import ClientForge.Document.Yaml.Cursor
import ClientForge.Document.Yaml.Token
import ClientForge.Text.Digit
/-!
# Names and scalars of YAML

The parts of a YAML text that are longer than a sign: anchors, tags, directives, and scalars in
their four styles. Each reader begins at the first character and gives the place after the last.
-/

namespace ClientForge
namespace Yaml

/-- The name of an anchor or alias, after its sign. -/
def readName (here : Cursor) : Except Fault (String × Cursor) :=
  let (name, next) := (here.advance 1).takeWhile isNameChar
  let ends := atBlank next.peek ||
    (next.peek.map ("?:,]\x7d%@\x60".toList.contains ·)) == some true
  if name.isEmpty || !ends then .error .malformed else .ok (String.ofList name, next)

/-- A character of the address in a tag. -/
def isUriChar (c : Char) : Bool :=
  Text.isWordChar c || "-;/?:@&=+$,_.!~*'()[]".toList.contains c

/-- The octets of escapes with two hexadecimal digits each. -/
def escapedOctets : List Char → Except Fault (List UInt8 × Nat)
  | '%' :: a :: b :: rest =>
    match Text.hexValue? a, Text.hexValue? b with
    | some high, some low =>
      (escapedOctets rest).map fun (octets, size) =>
        (UInt8.ofNat (16 * high + low) :: octets, size + 3)
    | _, _ => .error .malformed
  | '%' :: _ => .error .malformed
  | _ => .ok ([], 0)

/-- The pieces of an address: plain characters and escaped octets in turn. -/
def readUriPieces : Nat → Cursor → Except Fault (List Char × Cursor)
  | 0, here => .ok ([], here)
  | fuel + 1, here => do
    let (plain, next) := here.takeWhile isUriChar
    if next.peek = some '%' then
      let (octets, size) ← escapedOctets next.rest
      match Utf8.decode octets with
      | .error _ => .error .malformed
      | .ok decoded =>
        let (more, last) ← readUriPieces fuel (next.advance size)
        pure (plain ++ decoded ++ more, last)
    else pure (plain, next)

/-- The address in a tag, which is not empty. -/
def readUri (here : Cursor) : Except Fault (String × Cursor) := do
  let (uri, next) ← readUriPieces (here.rest.length + 1) here
  if uri.isEmpty then .error .malformed else pure (String.ofList uri, next)

/-- A tag handle: one exclamation mark, or a name between two. -/
def readHandle (here : Cursor) : Except Fault (String × Cursor) :=
  if here.peek = some '!' then
    let (name, next) := (here.advance 1).takeWhile isNameChar
    if next.peek = some '!' then
      .ok (String.ofList ('!' :: name ++ ['!']), next.advance 1)
    else if name.isEmpty ∧ next.peek = some ' ' then .ok ("!", next)
    else .error .malformed
  else .error .malformed

/-- A tag that is followed by a space or the end of the line. -/
def endTag (tag : Token) (here : Cursor) : Except Fault (Token × Cursor) :=
  if atSpace here.peek then .ok (tag, here) else .error .malformed

/-- A tag: an address between angle brackets, a lone exclamation mark, or a handle and the rest
of an address. -/
def readTag (here : Cursor) : Except Fault (Token × Cursor) :=
  if here.peekAt 1 = some '<' then do
    let (uri, next) ← readUri (here.advance 2)
    if next.peek = some '>' then endTag (.tag none uri) (next.advance 1) else .error .malformed
  else if atBlank (here.peekAt 1) then endTag (.tag none "!") (here.advance 1)
  else do
    let word := (here.rest.drop 1).takeWhile fun c => !atSpace (some c)
    let (handle, next) ← if word.contains '!' then readHandle here else .ok ("!", here.advance 1)
    let (suffix, last) ← readUri next
    endTag (.tag (some handle) suffix) last

/-- The end of a line that may have spaces and a comment. -/
def readLineEnd (here : Cursor) : Except Fault Cursor :=
  let next := here.skip (· == ' ')
  let next := if next.peek = some '#' then next.skip (!isBreak ·) else next
  if atLineEnd next.peek then .ok next.lineBreak.2 else .error .malformed

/-- A number in a directive. -/
def readVersionNumber (here : Cursor) : Except Fault (Nat × Cursor) :=
  let (digits, next) := here.takeWhile Text.isNumeral
  if digits.isEmpty then .error .malformed
  else if integerDigitLimit < digits.length then .error (.value (.longInteger digits.length))
  else .ok (Text.naturalOfDigits digits, next)

/-- The version in a directive: two numbers with a dot between them. -/
def readVersion (here : Cursor) : Except Fault (Directive × Cursor) := do
  let (major, dot) ← readVersionNumber (here.skip (· == ' '))
  if dot.peek = some '.' then
    let (_, next) ← readVersionNumber (dot.advance 1)
    if atSpace next.peek then pure (.version major, next) else .error .malformed
  else .error .malformed

/-- The handle in a directive and the address that it stands for. -/
def readHandleMeaning (here : Cursor) : Except Fault (Directive × Cursor) := do
  let (handle, next) ← readHandle (here.skip (· == ' '))
  if next.peek = some ' ' then
    let (uri, last) ← readUri (next.skip (· == ' '))
    if atSpace last.peek then pure (.handle handle uri, last) else .error .malformed
  else .error .malformed

/-- A directive and its line. -/
def readDirective (here : Cursor) : Except Fault (Token × Cursor) := do
  let (name, next) := (here.advance 1).takeWhile isNameChar
  if name.isEmpty || !atSpace next.peek then .error .malformed
  else
    let (directive, last) ←
      if name = "YAML".toList then readVersion next
      else if name = "TAG".toList then readHandleMeaning next
      else pure (.other, next.skip (!isBreak ·))
    let after ← readLineEnd last
    pure (.directive directive, after)

/-! ## Plain scalars -/

/-- Whether a plain scalar stops at a character, given the next one. -/
def plainStops (flow : Bool) (c : Char) (next : Option Char) : Bool :=
  atBlank (some c) ||
    (c == ':' && (atBlank next || (flow && (next.map (",[]\x7b\x7d".toList.contains ·)) == some true))) ||
    (flow && ",?[]\x7b\x7d".toList.contains c)

/-- The characters of a plain scalar up to a blank or the end of it. -/
def plainPart (flow : Bool) : List Char → List Char
  | [] => []
  | c :: rest => if plainStops flow c rest.head? then [] else c :: plainPart flow rest

/-- Line ends and spaces after the first line end, none if a marker between documents comes. -/
def gapBreaks : Nat → Cursor → Option (List Char) × Cursor
  | 0, here => (some [], here)
  | fuel + 1, here =>
    if here.atSeparator then (none, here)
    else
      let next := here.skip (· == ' ')
      match next.lineBreak with
      | ([], _) => (some [], next)
      | (ends, after) =>
        let (more, last) := gapBreaks fuel after
        (more.map (ends ++ ·), last)

/-- A line end and the line ends after it, folded: a single line feed is a space, and of
several the first is dropped. -/
def folded (first more : List Char) : List Char :=
  if first ≠ ['\n'] then first ++ more else if more.isEmpty then [' '] else more

/-- The gap inside a plain scalar and whether it goes over a line end; the gap is empty where
the scalar cannot go on. -/
def plainGap (here : Cursor) : List Char × Bool × Cursor :=
  let (spaces, next) := here.takeWhile (· == ' ')
  match next.lineBreak with
  | ([], _) => (spaces, false, next)
  | (first, after) =>
    match gapBreaks (after.rest.length + 1) after with
    | (none, last) => ([], true, last)
    | (some more, last) => (folded first more, true, last)

/-- The rest of a plain scalar after a gap, whether the gap after it goes over a line end, and
the place after that gap. In blocks, a line that begins before the margin is not part of it. -/
def plainRest (flow : Bool) (margin : Nat) :
    Nat → List Char → Bool → Cursor → List Char × Bool × Cursor
  | 0, _, crossed, here => ([], crossed, here)
  | fuel + 1, gap, crossed, here =>
    let part := if here.peek = some '#' then [] else plainPart flow here.rest
    if part.isEmpty then ([], crossed, here)
    else
      let (next, crossed, after) := plainGap (here.advance part.length)
      if next.isEmpty || after.peek == some '#' || (!flow && after.column < margin) then
        (gap ++ part, crossed, after)
      else
        let (more, crossed, last) := plainRest flow margin fuel next crossed after
        (gap ++ part ++ more, crossed, last)

/-- A plain scalar, whether the gap after it goes over a line end, and the place after that. -/
def readPlain (flow : Bool) (margin : Nat) (here : Cursor) : String × Bool × Cursor :=
  let (text, crossed, last) := plainRest flow margin (here.rest.length + 1) [] false here
  (String.ofList text, crossed, last)

/-! ## Quoted scalars -/

/-- The character that a letter after a backslash stands for. -/
def escapeMeaning? (c : Char) : Option Char :=
  [('0', '\x00'), ('a', '\x07'), ('b', '\x08'), ('t', '\t'), ('\t', '\t'), ('n', '\n'),
   ('v', '\x0b'), ('f', '\x0c'), ('r', '\r'), ('e', '\x1b'), (' ', ' '), ('"', '"'),
   ('\\', '\\'), ('/', '/'), ('N', '\x85'), ('_', '\xa0'), ('L', '\u2028'),
   ('P', '\u2029')].lookup c

/-- The number of hexadecimal digits after a letter after a backslash. -/
def escapeWidth? (c : Char) : Option Nat :=
  [('x', 2), ('u', 4), ('U', 8)].lookup c

/-- The character with a number. -/
def characterOf (n : Nat) : Except Fault Char :=
  if 0x80000000 ≤ n then .error (.value .characterSize)
  else if 0x110000 ≤ n then .error (.value .characterRange)
  else .ok (if n.isValidChar then Char.ofNat n else '\ufffd')

/-- The line ends and blanks from the beginning of a line on. A marker between documents is
not allowed there. -/
def quotedBreaks : Nat → Cursor → Except Fault (List Char × Cursor)
  | 0, here => .ok ([], here)
  | fuel + 1, here =>
    if here.atSeparator then .error .malformed
    else
      let next := here.skip isBlank
      match next.lineBreak with
      | ([], _) => .ok ([], next)
      | (ends, after) => (quotedBreaks fuel after).map fun (more, last) => (ends ++ more, last)

/-- The escape after a backslash. A line end after a backslash is dropped with the blanks of
the next line. -/
def readEscape (here : Cursor) : Except Fault (List Char × Cursor) :=
  match here.peek with
  | none => .error .malformed
  | some c =>
    match escapeMeaning? c, escapeWidth? c with
    | some meaning, _ => .ok ([meaning], here.advance 1)
    | none, some width =>
      let digits := (here.rest.drop 1).take width
      match digits.mapM Text.hexValue? with
      | none => .error .malformed
      | some values =>
        if values.length < width then .error .malformed
        else
          (characterOf (values.foldl (fun n v => 16 * n + v) 0)).map fun meaning =>
            ([meaning], here.advance (width + 1))
    | none, none =>
      if isBreak c then quotedBreaks (here.rest.length + 1) (here.advance 1) else .error .malformed

/-- The characters that end a stretch of a quoted scalar. -/
def quotedStops (c : Char) : Bool :=
  c == '\'' || c == '"' || c == '\\' || atBlank (some c)

/-- The gap inside a quoted scalar: blanks, or line ends folded. -/
def quotedGap (here : Cursor) : Except Fault (List Char × Cursor) := do
  let (blanks, next) := here.takeWhile isBlank
  match next.peek with
  | none => .error .malformed
  | some _ =>
    match next.lineBreak with
    | ([], _) => pure (blanks, next)
    | (first, after) =>
      let (more, last) ← quotedBreaks (after.rest.length + 1) after
      pure (folded first more, last)

/-- A quoted scalar after its opening quote. -/
def quotedRest (quote : Char) : Nat → Cursor → Except Fault (List Char × Cursor)
  | 0, _ => .error .malformed
  | fuel + 1, here => do
    let (part, next) := here.takeWhile (!quotedStops ·)
    match next.peek with
    | none => .error .malformed
    | some c =>
      if c = quote then
        if quote = '\'' ∧ next.peekAt 1 = some '\'' then
          let (more, last) ← quotedRest quote fuel (next.advance 2)
          pure (part ++ '\'' :: more, last)
        else pure (part, next.advance 1)
      else if c = '\\' ∧ quote = '"' then
        let (meaning, after) ← readEscape (next.advance 1)
        let (more, last) ← quotedRest quote fuel after
        pure (part ++ meaning ++ more, last)
      else if c = '\'' ∨ c = '"' ∨ c = '\\' then
        let (more, last) ← quotedRest quote fuel (next.advance 1)
        pure (part ++ c :: more, last)
      else
        let (gap, after) ← quotedGap next
        let (more, last) ← quotedRest quote fuel after
        pure (part ++ gap ++ more, last)

/-- A quoted scalar. -/
def readQuoted (quote : Char) (here : Cursor) : Except Fault (String × Cursor) :=
  (quotedRest quote (here.rest.length + 1) (here.advance 1)).map fun (text, last) =>
    (String.ofList text, last)

/-! ## Block scalars -/

/-- What becomes of the line ends after a block scalar. -/
inductive Chomping where
  | strip
  | clip
  | keep
deriving DecidableEq, Repr

/-- The indicator of chomping at a place. -/
def chomping? (here : Cursor) : Option Chomping :=
  match here.peek with
  | some '+' => some .keep
  | some '-' => some .strip
  | _ => none

/-- The digit of an indentation at a place, which is not zero. -/
def readIncrement (here : Cursor) : Except Fault (Option Nat × Cursor) :=
  match here.peek with
  | some c =>
    if c = '0' then .error .malformed
    else if Text.isNumeral c then .ok (some (c.toNat - 48), here.advance 1)
    else .ok (none, here)
  | none => .ok (none, here)

/-- The indicators of a block scalar, in either order. -/
def readIndicators (here : Cursor) : Except Fault ((Chomping × Option Nat) × Cursor) := do
  let ((chomping, increment), next) ←
    match chomping? here with
    | some chomping => do
      let (increment, next) ← readIncrement (here.advance 1)
      pure ((chomping, increment), next)
    | none => do
      let (increment, next) ← readIncrement here
      match increment, chomping? next with
      | some _, some chomping => pure ((chomping, increment), next.advance 1)
      | _, _ => pure ((Chomping.clip, increment), next)
  if atSpace next.peek then pure ((chomping, increment), next) else .error .malformed

/-- The line ends before the first line, and the widest indentation seen. -/
def leadingBreaks : Nat → Nat → Cursor → List Char × Nat × Cursor
  | 0, widest, here => ([], widest, here)
  | fuel + 1, widest, here =>
    let next := here.skip (· == ' ')
    let widest := max widest next.column
    match next.lineBreak with
    | ([], _) => ([], widest, next)
    | (ends, after) =>
      let (more, widest, last) := leadingBreaks fuel widest after
      (ends ++ more, widest, last)

/-- The place after at most so many spaces that a column is reached. -/
def skipToColumn (column : Nat) (here : Cursor) : Cursor :=
  here.advance ((here.rest.take (column - here.column)).takeWhile (· == ' ')).length

/-- The line ends before the next line that has text at a column or before it. -/
def blockBreaks (column : Nat) : Nat → Cursor → List Char × Cursor
  | 0, here => ([], here)
  | fuel + 1, here =>
    let next := skipToColumn column here
    match next.lineBreak with
    | ([], _) => ([], next)
    | (ends, after) =>
      let (more, last) := blockBreaks column fuel after
      (ends ++ more, last)

/-- The lines of a block scalar after the line ends before them, with the tail chomped. -/
def blockLines (fold : Bool) (chomping : Chomping) (column : Nat) :
    Nat → List Char → Cursor → List Char × Cursor
  | 0, _, here => ([], here)
  | fuel + 1, breaks, here =>
    let tail (lineEnd breaks : List Char) : List Char :=
      match chomping with
      | .strip => []
      | .clip => lineEnd
      | .keep => lineEnd ++ breaks
    if here.column = column ∧ here.peek.isSome then
      let flush := (here.peek.map isBlank) == some false
      let (line, lineEndAt) := here.takeWhile (!isBreak ·)
      let (lineEnd, after) := lineEndAt.lineBreak
      let (more, next) := blockBreaks column (after.rest.length + 1) after
      if next.column = column ∧ next.peek.isSome then
        let joint :=
          if fold ∧ lineEnd = ['\n'] ∧ flush ∧ (next.peek.map isBlank) = some false then
            if more.isEmpty then [' '] else []
          else lineEnd
        let (others, last) := blockLines fold chomping column fuel more next
        (breaks ++ line ++ joint ++ others, last)
      else (breaks ++ line ++ tail lineEnd more, next)
    else (tail [] breaks, here)

/-- A block scalar: literal, or folded after an angle bracket. Its column is given by an
indicator relative to the margin, or found from the first line with text. -/
def readBlock (margin : Nat) (here : Cursor) : Except Fault (String × Cursor) := do
  let fold := here.peek = some '>'
  let ((chomping, increment), next) ← readIndicators (here.advance 1)
  let start ← readLineEnd next
  let fuel := start.rest.length + 1
  let least := max 1 margin
  match increment with
  | some n =>
    let column := least + n - 1
    let (breaks, first) := blockBreaks column fuel start
    let (text, last) := blockLines fold chomping column fuel breaks first
    pure (String.ofList text, last)
  | none =>
    let (breaks, widest, first) := leadingBreaks fuel 0 start
    let (text, last) := blockLines fold chomping (max least widest) fuel breaks first
    pure (String.ofList text, last)

end Yaml
end ClientForge
