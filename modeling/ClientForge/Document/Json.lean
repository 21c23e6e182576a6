import ClientForge.Decimal.Reader
import ClientForge.Document.Value
/-!
# JSON documents

A reader for JSON texts. Numbers with a fraction or an exponent are binary, all others whole
numbers of any size; the words for numbers that are not finite are accepted. A repeated key
keeps its first place and its last value. Faults tell the line, the column and the offset.

Half of a surrogate pair that stands alone is no character, so a document cannot hold it: it is read
as a replacement character.
-/

namespace ClientForge
namespace Json

/-- What is wrong with a text. -/
inductive Cause where
  | expectingValue
  | expectingName
  | expectingColon
  | expectingComma
  | extraData
  | unterminatedString
  | controlCharacter
  | invalidEscape
  | invalidUnicodeEscape
  | byteOrderMark
deriving DecidableEq, Repr

/-- The wording of each cause. -/
def Cause.message : Cause → String
  | .expectingValue => "Expecting value"
  | .expectingName => "Expecting property name enclosed in double quotes"
  | .expectingColon => "Expecting ':' delimiter"
  | .expectingComma => "Expecting ',' delimiter"
  | .extraData => "Extra data"
  | .unterminatedString => "Unterminated string starting at"
  | .controlCharacter => "Invalid control character at"
  | .invalidEscape => "Invalid \\escape"
  | .invalidUnicodeEscape => "Invalid \\uXXXX escape"
  | .byteOrderMark => "Unexpected UTF-8 BOM (decode using utf-8-sig)"

/-- Why a text is no document. -/
inductive Fault where
  | malformed (cause : Cause) (offset : Nat)
  | longInteger (digits : Nat)
deriving DecidableEq, Repr

/-- The line and the column of an offset, both from one on. -/
def lineAndColumn (cs : List Char) (offset : Nat) : Nat × Nat :=
  let before := cs.take offset
  (before.count '\n' + 1, (before.reverse.takeWhile (· != '\n')).length + 1)

/-- The wording of a cause at an offset of a text. -/
def located (cs : List Char) (cause : Cause) (offset : Nat) : String :=
  let (line, column) := lineAndColumn cs offset
  cause.message ++ s!": line {line} column {column} (char {offset})"

/-- The characters from an offset on. -/
structure Cursor where
  offset : Nat
  rest : List Char

/-- The place a number of characters further. -/
def Cursor.advance (c : Cursor) (n : Nat) : Cursor :=
  ⟨c.offset + n, c.rest.drop n⟩

/-- Whether a character may stand between tokens. -/
def isSpace (c : Char) : Bool :=
  c == ' ' || c == '\t' || c == '\n' || c == '\r'

/-- The next place that is no space. -/
def Cursor.skipSpace (c : Cursor) : Cursor :=
  c.advance (c.rest.takeWhile isSpace).length

/-- The number written by hexadecimal digits. -/
def hexNumber? (cs : List Char) : Option Nat :=
  cs.foldlM (fun n c => (Text.hexValue? c).map (n * 16 + ·)) 0

/-- Four hexadecimal digits, which may not be the last characters of the text. -/
def fourDigits? (cs : List Char) : Option Nat :=
  if cs.length ≤ 4 then none else hexNumber? (cs.take 4)

/-- The character of a simple escape. -/
def simpleEscape? : Char → Option Char
  | '"' => some '"'
  | '\\' => some '\\'
  | '/' => some '/'
  | 'b' => some (Char.ofNat 8)
  | 'f' => some (Char.ofNat 12)
  | 'n' => some '\n'
  | 'r' => some '\r'
  | 't' => some '\t'
  | _ => none

/-- A character from one or two UTF-16 units; a unit without its partner is replaced. -/
def unitChar (n : Nat) : Char :=
  if 0xD800 ≤ n && n ≤ 0xDFFF then Char.ofNat 0xFFFD else Char.ofNat n

/-- The second half of a surrogate pair right after the first: its escape and its value. -/
def lowSurrogate? : List Char → Option (Option Nat)
  | '\\' :: 'u' :: rest => if rest.length ≤ 4 then none else some (hexNumber? (rest.take 4))
  | _ => none

/-- The characters of a string up to its closing quote, and the place after it. `skip` counts
characters that belong to an escape that has been read. -/
def stringFrom (start offset : Nat) : Nat → List Char → Except Fault (List Char × Cursor)
  | _, [] => .error (.malformed .unterminatedString start)
  | skip + 1, _ :: rest => stringFrom start (offset + 1) skip rest
  | 0, c :: rest =>
    if c = '"' then .ok ([], ⟨offset + 1, rest⟩)
    else if c.toNat ≤ 0x1F then .error (.malformed .controlCharacter offset)
    else if c ≠ '\\' then
      (stringFrom start (offset + 1) 0 rest).map fun (cs, after) => (c :: cs, after)
    else
      match rest with
      | [] => .error (.malformed .unterminatedString start)
      | 'u' :: digits =>
        match fourDigits? digits with
        | none => .error (.malformed .invalidUnicodeEscape (offset + 1))
        | some n =>
          let single : Except Fault (List Char × Cursor) :=
            (stringFrom start (offset + 1) 5 rest).map fun (cs, after) => (unitChar n :: cs, after)
          if 0xD800 ≤ n && n ≤ 0xDBFF then
            match lowSurrogate? (digits.drop 4) with
            | none => single
            | some none => .error (.malformed .invalidUnicodeEscape (offset + 7))
            | some (some m) =>
              if 0xDC00 ≤ m && m ≤ 0xDFFF then
                let joined := Char.ofNat (0x10000 + (n - 0xD800) * 0x400 + (m - 0xDC00))
                (stringFrom start (offset + 1) 11 rest).map fun (cs, after) => (joined :: cs, after)
              else single
          else single
      | e :: _ =>
        match simpleEscape? e with
        | none => .error (.malformed .invalidEscape offset)
        | some d => (stringFrom start (offset + 1) 1 rest).map fun (cs, after) => (d :: cs, after)

/-- The string whose opening quote stands at a place. -/
def string (c : Cursor) : Except Fault (String × Cursor) :=
  (stringFrom c.offset (c.offset + 1) 0 (c.rest.drop 1)).map fun (cs, after) =>
    (String.ofList cs, after)

/-- The digits of a whole part: a zero stands alone. -/
def wholeDigits : List Char → List Char
  | '0' :: _ => ['0']
  | cs => cs.takeWhile Text.isNumeral

/-- A fraction: a point and at least one digit. -/
def fractionPart : List Char → List Char
  | '.' :: rest =>
    match rest.takeWhile Text.isNumeral with
    | [] => []
    | digits => '.' :: digits
  | _ => []

/-- An exponent: its letter, a sign, and at least one digit. -/
def exponentPart : List Char → List Char
  | e :: rest =>
    if e = 'e' || e = 'E' then
      let sign := match rest with
        | '+' :: _ => ['+']
        | '-' :: _ => ['-']
        | _ => []
      match (rest.drop sign.length).takeWhile Text.isNumeral with
      | [] => []
      | digits => e :: sign ++ digits
    else []
  | [] => []

/-- The number at a place. -/
def number (c : Cursor) : Except Fault (Value × Cursor) :=
  let sign := if c.rest.head? = some '-' then ['-'] else []
  let whole := wholeDigits (c.rest.drop sign.length)
  if whole.isEmpty then .error (.malformed .expectingValue c.offset)
  else
    let count := sign.length + whole.length
    let fraction := fractionPart (c.rest.drop count)
    let exponent := exponentPart (c.rest.drop (count + fraction.length))
    if fraction.isEmpty && exponent.isEmpty then
      if integerDigitLimit < whole.length then .error (.longInteger whole.length)
      else .ok (.int (integerOfText (sign ++ whole)), c.advance count)
    else
      let text := String.ofList (sign ++ whole ++ fraction ++ exponent)
      .ok (.float ((Binary64.read? text).getD .nan),
        c.advance (count + fraction.length + exponent.length))

/-- The words that are values. -/
def words : List (String × Value) :=
  [("null", .null), ("true", .bool true), ("false", .bool false), ("NaN", .float .nan),
   ("Infinity", .float (.infinite false)), ("-Infinity", .float (.infinite true))]

/-- The word at a place. -/
def word? (c : Cursor) : Option (Value × Cursor) :=
  (words.find? fun (w, _) => w.toList.isPrefixOf c.rest).map fun (w, v) =>
    (v, c.advance w.length)

mutual

/-- The value at a place. Each bracket takes two calls, so twice the text's length bounds the
depth. -/
def value : Nat → Cursor → Except Fault (Value × Cursor)
  | 0, c => .error (.malformed .expectingValue c.offset)
  | fuel + 1, c =>
    match c.rest.head? with
    | none => .error (.malformed .expectingValue c.offset)
    | some '"' => (string c).map fun (s, after) => (.str s, after)
    | some '\x7b' =>
      let inside := (c.advance 1).skipSpace
      if inside.rest.head? = some '\x7d' then .ok (.map [], inside.advance 1)
      else (members fuel [] inside).map fun (entries, after) => (.map entries, after)
    | some '[' =>
      let inside := (c.advance 1).skipSpace
      if inside.rest.head? = some ']' then .ok (.list [], inside.advance 1)
      else (items fuel inside).map fun (list, after) => (.list list, after)
    | some _ =>
      match word? c with
      | some found => .ok found
      | none => number c

/-- The entries of an object up to its closing brace, after those found before. -/
def members : Nat → List (Value × Value) → Cursor →
    Except Fault (List (Value × Value) × Cursor)
  | 0, _, c => .error (.malformed .expectingName c.offset)
  | fuel + 1, found, c =>
    if c.rest.head? ≠ some '"' then .error (.malformed .expectingName c.offset)
    else do
      let (key, afterKey) ← string c
      let colon := afterKey.skipSpace
      if colon.rest.head? ≠ some ':' then .error (.malformed .expectingColon colon.offset)
      else do
        let (v, afterValue) ← value fuel (colon.advance 1).skipSpace
        let next := afterValue.skipSpace
        let entries := Value.put found (.str key) v
        match next.rest.head? with
        | some '\x7d' => .ok (entries, next.advance 1)
        | some ',' => members fuel entries (next.advance 1).skipSpace
        | _ => .error (.malformed .expectingComma next.offset)

/-- The items of an array up to its closing bracket. -/
def items : Nat → Cursor → Except Fault (List Value × Cursor)
  | 0, c => .error (.malformed .expectingValue c.offset)
  | fuel + 1, c => do
    let (v, afterValue) ← value fuel c
    let next := afterValue.skipSpace
    match next.rest.head? with
    | some ']' => .ok ([v], next.advance 1)
    | some ',' =>
      (items fuel (next.advance 1).skipSpace).map fun (list, after) => (v :: list, after)
    | _ => .error (.malformed .expectingComma next.offset)

end

/-- The document that a text stands for. -/
def parse (cs : List Char) : Except Fault Value :=
  if cs.head? = some (Char.ofNat 0xFEFF) then .error (.malformed .byteOrderMark 0)
  else
    match value (2 * cs.length + 2) (Cursor.skipSpace ⟨0, cs⟩) with
    | .error fault => .error fault
    | .ok (v, after) =>
      let last := after.skipSpace
      if last.rest.isEmpty then .ok v else .error (.malformed .extraData last.offset)

end Json
end ClientForge
