import ClientForge.Text.Letters
import ClientForge.Text.Quoted
import ClientForge.Text.Split
/-!
# Lexemes of Python text

Words, numbers, strings and signs, each with its line. Lines inside brackets are joined, and a
line of code outside of brackets begins with its margin. A text has no lexemes if a string is
not closed, if a bracket does not match, or if a character outside of strings does not print.
-/

namespace ClientForge
namespace Check

/-- What a lexeme is. The margin of a line is the column of its first character. -/
inductive Lexeme.Form where
  | margin (column : Nat)
  | word (text : String)
  | number
  | string
  | sign (text : String)
deriving DecidableEq, Repr

/-- A lexeme and the line that it begins on. -/
structure Lexeme where
  form : Lexeme.Form
  line : Nat
deriving DecidableEq, Repr

/-- An opening bracket and its line. -/
structure OpenBracket where
  bracket : Char
  line : Nat
deriving DecidableEq, Repr

/-- Why a text is not Python, and on which line. -/
structure SyntaxFault where
  problem : String
  line : Nat
deriving DecidableEq, Repr

namespace Lexeme

/-- Signs of three characters, then of two, then of one. -/
def signs : List String :=
  ["**=", "//=", ">>=", "<<=", "...", "**", "//", ">>", "<<", "<=", ">=", "==", "!=", "->", "+=",
   "-=", "*=", "/=", "%=", "&=", "|=", "^=", "@=", ":=", "+", "-", "*", "/", "%", "&", "|", "^",
   "~", "<", ">", "(", ")", "[", "]", "\x7b", "\x7d", ",", ":", ";", ".", "=", "@"]

/-- The longest sign at the beginning of the characters. -/
def sign? (cs : List Char) : Option String :=
  signs.find? fun s => s.toList.isPrefixOf cs

/-- A character of a word; letters of other scripts are not told from other printable
characters. -/
def isWordStart (c : Char) : Bool :=
  Text.isIdentifierStart c || (0x80 ≤ c.toNat && Text.isPrintable c)

/-- A character that continues a word. -/
def isWordPart (c : Char) : Bool :=
  isWordStart c || Text.isNumeral c

/-- The words that may stand directly before a quote. -/
def isStringMark (word : String) : Bool :=
  ["r", "u", "b", "f", "br", "rb", "fr", "rf"].contains (Text.lower word)

/-- The number of characters of a string after its opening quote, the closing quote included;
none if it is not closed. A string in single quotes ends before the end of the line. -/
def stringLength (quote : Char) (triple : Bool) : List Char → Option Nat
  | [] => none
  | '\\' :: _ :: rest => (stringLength quote triple rest).map (· + 2)
  | c :: rest =>
    if c = quote ∧ (!triple || [quote, quote].isPrefixOf rest) then
      some (if triple then 3 else 1)
    else if c = '\n' ∧ !triple then none
    else (stringLength quote triple rest).map (· + 1)

/-- The number of characters of a number: letters, digits, points and underscores, and the
sign of an exponent. -/
def numberLength : List Char → Nat
  | 'e' :: '+' :: rest => numberLength rest + 2
  | 'e' :: '-' :: rest => numberLength rest + 2
  | c :: rest => if Text.isIdentifierChar c || c == '.' then numberLength rest + 1 else 0
  | [] => 0

/-- The digits of an exponent with its sign, or nothing. -/
def isExponent : List Char → Bool
  | [] => true
  | 'e' :: '+' :: rest => !rest.isEmpty && rest.all Text.isNumeral
  | 'e' :: '-' :: rest => !rest.isEmpty && rest.all Text.isNumeral
  | 'e' :: rest => !rest.isEmpty && rest.all Text.isNumeral
  | _ => false

/-- Whether characters are a number: digits, perhaps a fraction, perhaps an exponent; or
hexadecimal digits. -/
def isNumber (cs : List Char) : Bool :=
  match cs with
  | '0' :: 'x' :: rest => !rest.isEmpty && rest.all Text.isWordChar
  | _ =>
    let isDigit (c : Char) := Text.isNumeral c || c == '_'
    match cs.dropWhile isDigit with
    | '.' :: rest => isExponent (rest.dropWhile isDigit)
    | rest => isExponent rest

/-- The column after leading blanks; a tab goes to the next multiple of eight and a form feed
to the beginning of the line. -/
def marginColumn (column : Nat) : List Char → Nat
  | ' ' :: rest => marginColumn (column + 1) rest
  | '\t' :: rest => marginColumn ((column / 8 + 1) * 8) rest
  | '\x0c' :: rest => marginColumn 0 rest
  | _ => column

/-- A blank inside of a line. -/
def isGap (c : Char) : Bool :=
  c == ' ' || c == '\t' || c == '\x0c'

/-- The bracket that is closed by a bracket. -/
def partner? (s : String) : Option Char :=
  if s = ")" then some '(' else if s = "]" then some '[' else if s = "\x7d" then some '\x7b'
  else none

/-- The open brackets after a sign. -/
def track (line : Nat) (opened : List OpenBracket) (s : String) :
    Except SyntaxFault (List OpenBracket) :=
  if s = "(" ∨ s = "[" ∨ s = "\x7b" then .ok (⟨s.toList.headD '(', line⟩ :: opened)
  else
    match partner? s, opened with
    | none, _ => .ok opened
    | some _, [] => .error ⟨"unmatched '" ++ s ++ "'", line⟩
    | some partner, innermost :: outer =>
      if innermost.bracket = partner then .ok outer
      else
        let opener := String.singleton innermost.bracket
        let place := if innermost.line = line then "" else s!" on line {innermost.line}"
        .error ⟨"closing parenthesis '" ++ s ++ "' does not match opening parenthesis '" ++
          opener ++ "'" ++ place, line⟩

/-- What is read at a place: a lexeme or a gap, the number of characters after the first one,
and the line ends among them. -/
structure Reading where
  form : Option Form := none
  size : Nat := 0
  breaks : Nat := 0
deriving DecidableEq, Repr

/-- The string that begins with a quote. -/
def readString (line : Nat) (quote : Char) (rest : List Char) : Except SyntaxFault Reading :=
  let triple := [quote, quote].isPrefixOf rest
  match stringLength quote triple (if triple then rest.drop 2 else rest) with
  | none =>
    let kind := if triple then "triple-quoted string literal" else "string literal"
    let last := if triple then line + (rest.dropLast).count '\n' else line
    .error ⟨"unterminated " ++ kind ++ s!" (detected at line {last})", line⟩
  | some length =>
    let size := if triple then length + 2 else length
    .ok ⟨some .string, size, (rest.take size).count '\n'⟩

/-- The word that begins with a character; the mark of a string is a gap before it. -/
def readWord (c : Char) (rest : List Char) : Reading :=
  let tail := rest.takeWhile isWordPart
  let next := (rest.drop tail.length).head?
  let text := String.ofList (c :: tail)
  if isStringMark text ∧ (next = some '"' ∨ next = some '\'') then ⟨none, tail.length, 0⟩
  else ⟨some (.word text), tail.length, 0⟩

/-- What is read at a character. -/
def read (line : Nat) (c : Char) (rest : List Char) : Except SyntaxFault Reading :=
  if c = '\n' then .ok ⟨none, 0, 1⟩
  else if isGap c then .ok {}
  else if c = '#' then .ok ⟨none, (rest.takeWhile (· ≠ '\n')).length, 0⟩
  else if c = '\\' then
    if rest.head? = some '\n' then .ok ⟨none, 1, 1⟩
    else .error ⟨"unexpected character after line continuation character", line⟩
  else if isWordStart c then .ok (readWord c rest)
  else if c = '"' ∨ c = '\'' then readString line c rest
  else if Text.isNumeral c ∨ (c = '.' ∧ rest.head?.map Text.isNumeral = some true) then
    let size := numberLength rest
    if isNumber (c :: rest.take size) then .ok ⟨some .number, size, 0⟩
    else .error ⟨"invalid decimal literal", line⟩
  else
    match sign? (c :: rest) with
    | some s => .ok ⟨some (.sign s), s.length - 1, 0⟩
    | none =>
      if Text.isPrintable c then .ok ⟨some (.sign (String.singleton c)), 0, 0⟩
      else
        let code := String.ofList ((Text.hex 4 c.toNat).map Text.upperChar)
        .error ⟨"invalid non-printable character U+" ++ code, line⟩

/-- The margin of the line that begins here; blank lines and comments have none. -/
def marginOf (line : Nat) (cs : List Char) : List Lexeme :=
  match (cs.dropWhile isGap).head? with
  | none => []
  | some c => if c = '\n' ∨ c = '#' then [] else [⟨.margin (marginColumn 0 cs), line⟩]

/-- The brackets open after a reading. -/
def Reading.track (r : Reading) (line : Nat) (opened : List OpenBracket) :
    Except SyntaxFault (List OpenBracket) :=
  match r.form with
  | some (.sign s) => Lexeme.track line opened s
  | _ => .ok opened

/-- The lexemes of characters, and the brackets that stay open. `fresh` tells whether a line
begins here. -/
def scan (line : Nat) (opened : List OpenBracket) (fresh : Bool) :
    List Char → Except SyntaxFault (List Lexeme × List OpenBracket)
  | [] => .ok ([], opened)
  | c :: rest => do
    let reading ← read line c rest
    let inner ← reading.track line opened
    let (found, left) ← scan (line + reading.breaks) inner (c == '\n') (rest.drop reading.size)
    let margin := if fresh ∧ opened.isEmpty then marginOf line (c :: rest) else []
    pure (margin ++ (reading.form.map (⟨·, line⟩)).toList ++ found, left)
termination_by cs => cs.length
decreasing_by
  simp only [List.length_drop, List.length_cons]
  omega

/-- The lexemes of a text, and the brackets that stay open. All line ends count alike. -/
def ofText (content : String) : Except SyntaxFault (List Lexeme × List OpenBracket) :=
  scan 1 [] true (Text.unifyLineEnds content.toList)

end Lexeme
end Check
end ClientForge
