import ClientForge.Check.Lexeme
import ClientForge.Naming.Style
/-!
# Shape of Python statements

A check of Python text by its lexemes: strings and brackets are closed, a class or function has
a name of its own, a header ends with a colon and has a block, operands do not follow each other
and no operator lacks one. This is not a parser, and no statement about writing rests on it. It is
meant for texts of the kind that is generated here: other texts may pass that are not Python, and
some Python that is never generated does not pass.
-/

namespace ClientForge
namespace Check
namespace Statement

open Lexeme (Form)

/-- A word that cannot be a name. -/
def isKeyword (word : String) : Bool :=
  Naming.pythonKeywords.contains word

/-- The keywords that are values. -/
def isConstant (word : String) : Bool :=
  ["None", "True", "False"].contains word

/-- A keyword that may end a line or a group. -/
def mayEnd (word : String) : Bool :=
  !isKeyword word || isConstant word ||
    ["pass", "break", "continue", "return", "raise", "yield"].contains word

/-- Whether an operand ends with a lexeme. -/
def endsOperand : Form → Bool
  | .word s => !isKeyword s || isConstant s
  | .number => true
  | .string => true
  | .sign s => [")", "]", "\x7d", "..."].contains s
  | .margin _ => false

/-- Whether only an operand can begin with a lexeme: a call or an index may follow an operand. -/
def startsOperand : Form → Bool
  | .word s => !isKeyword s || isConstant s
  | .number => true
  | .string => true
  | .sign s => ["\x7b", "~", "..."].contains s
  | .margin _ => false

/-- A sign that closes a group, divides it, or goes on after an operand. -/
def needsOperandBefore : Form → Bool
  | .sign s =>
    let allowed := ["(", "[", "\x7b", ")", "]", "\x7d", "+", "-", "*", "**", "~", "...", "@", ":", "."]
    !allowed.contains s
  | _ => false

/-- A lexeme after which an operand has to come. -/
def needsOperandAfter : Form → Bool
  | .word s => !(mayEnd s || ["else", "try", "finally", "lambda", "except"].contains s)
  | .sign s =>
    let closed := ["(", "[", "\x7b", ")", "]", "\x7d", ",", ":", ";", "...", "*", "/"]
    !closed.contains s
  | _ => false

/-- A sign that ends a group or a part of it. -/
def endsPart : Form → Bool
  | .sign s => [")", "]", "\x7d", ",", ":", ";", "="].contains s
  | _ => false

/-- A sign after which a part of a group begins. -/
def beginsPart : Form → Bool
  | .sign s => ["(", "[", "\x7b", ",", ";"].contains s
  | _ => false

/-- A character that is no sign of the language. -/
def isStray : Form → Bool
  | .sign s => !Lexeme.signs.contains s
  | _ => false

/-- A colon cannot begin a group, and only a word follows a dot. -/
def misplaced (before after : Form) : Bool :=
  (before == .sign "(" && after == .sign ":") ||
    (before == .sign "." && !(after matches .word _))

/-- Whether a lexeme cannot follow another one on a line. -/
def clash (before after : Form) : Bool :=
  isStray after || misplaced before after ||
    (endsOperand before && startsOperand after && !(before == .string && after == .string)) ||
    (needsOperandAfter before && endsPart after) ||
    (beginsPart before && needsOperandBefore after && after != .sign "/")

/-- The line of the first lexeme that cannot follow the one before it. -/
def firstClash : List Lexeme → Option Nat
  | [] => none
  | [_] => none
  | before :: after :: rest =>
    if clash before.form after.form then some after.line else firstClash (after :: rest)

/-- The words that begin a statement with a block. -/
def isHeaderWord (word : String) : Bool :=
  ["class", "def", "if", "elif", "else", "for", "while", "with", "try", "except", "finally",
   "async"].contains word

/-- Whether there is a colon outside of brackets. -/
def hasColon (depth : Nat) : List Lexeme → Bool
  | [] => false
  | lexeme :: rest =>
    match lexeme.form with
    | .sign s =>
      if s = ":" ∧ depth = 0 then true
      else if s = "(" ∨ s = "[" ∨ s = "\x7b" then hasColon (depth + 1) rest
      else if s = ")" ∨ s = "]" ∨ s = "\x7d" then hasColon (depth - 1) rest
      else hasColon depth rest
    | _ => hasColon depth rest

/-- The statement of a class or function, after its first word: a name, then one of some signs. -/
def nameFault (line : Nat) (signs : List String) : List Lexeme → Option SyntaxFault
  | ⟨.word name, place⟩ :: next :: _ =>
    if isKeyword name then some ⟨"invalid syntax", place⟩
    else
      match next.form with
      | .sign s => if signs.contains s then none else some ⟨"invalid syntax", next.line⟩
      | _ => some ⟨"invalid syntax", next.line⟩
  | [⟨.word name, place⟩] =>
    some ⟨if isKeyword name then "invalid syntax" else "expected '" ++ signs.headD ":" ++ "'", place⟩
  | next :: _ => some ⟨"invalid syntax", next.line⟩
  | [] => some ⟨"invalid syntax", line⟩

/-- What is wrong with the beginning of a line. -/
def headFault : List Lexeme → Option SyntaxFault
  | ⟨.word "class", line⟩ :: rest => nameFault line [":", "("] rest
  | ⟨.word "def", line⟩ :: rest => nameFault line ["("] rest
  | ⟨.word "async", _⟩ :: ⟨.word "def", line⟩ :: rest => nameFault line ["("] rest
  | first :: _ =>
    if needsOperandBefore first.form || first.form == .sign ":" || first.form == .sign "." then
      some ⟨"invalid syntax", first.line⟩
    else none
  | [] => none

/-- Whether a line begins with a word that has one of some properties. -/
def beginsWith (accept : String → Bool) : List Lexeme → Bool
  | ⟨.word s, _⟩ :: _ => accept s
  | _ => false

/-- What is wrong with a line of code. -/
def lineFault (code : List Lexeme) : Option SyntaxFault :=
  let last := code.getLast?
  let lastLine := (last.map Lexeme.line).getD 1
  match headFault code with
  | some fault => some fault
  | none =>
    -- Imports have relative dots and stars; the soft keywords are names elsewhere.
    if beginsWith (fun s => ["from", "import", "match", "case", "type"].contains s) code then none
    else
      match firstClash code with
      | some line => some ⟨"invalid syntax", line⟩
      | none =>
        if beginsWith isHeaderWord code && !hasColon 0 code then some ⟨"expected ':'", lastLine⟩
        else if (last.map fun l => needsOperandAfter l.form) = some true then
          some ⟨"invalid syntax", lastLine⟩
        else none

/-- A line of code: its margin and its lexemes. -/
structure Line where
  margin : Nat
  number : Nat
  code : List Lexeme
deriving DecidableEq, Repr

/-- Lexemes grouped by the margins before them. -/
def linesOf : List Lexeme → List Line
  | [] => []
  | ⟨.margin column, number⟩ :: rest =>
    ⟨column, number, rest.takeWhile fun l => !(l.form matches .margin _)⟩ :: linesOf rest
  | _ :: rest => linesOf rest

/-- Whether a block has to follow: the line is a header and ends with its colon. -/
def opensBlock (code : List Lexeme) : Bool :=
  (code.getLast?.map Lexeme.form) == some (.sign ":")

/-- What is wrong with lines, given the margins of the blocks around and whether a block has to
begin. -/
def linesFault (margins : List Nat) (blockDue : Bool) : List Line → Option SyntaxFault
  | [] => if blockDue then some ⟨"expected an indented block", 1⟩ else none
  | line :: rest =>
    let current := margins.headD 0
    if blockDue && line.margin ≤ current then some ⟨"expected an indented block", line.number⟩
    else if !blockDue && current < line.margin then some ⟨"unexpected indent", line.number⟩
    else
      let outer := margins.dropWhile (line.margin < ·)
      if !blockDue && outer.headD 0 ≠ line.margin then
        some ⟨"unindent does not match any outer indentation level", line.number⟩
      else
        match lineFault line.code with
        | some fault => some fault
        | none =>
          linesFault (if blockDue then line.margin :: margins else outer) (opensBlock line.code) rest

/-- What is wrong with a text: a string or bracket in the wrong place first, then the first bad
line, unless a bracket on a line above it is never closed. -/
def fault? (content : String) : Option SyntaxFault :=
  match Lexeme.ofText content with
  | .error fault => some fault
  | .ok (lexemes, opened) =>
    let unclosed := opened.head?.map fun innermost =>
      (⟨"'" ++ String.singleton innermost.bracket ++ "' was never closed", innermost.line⟩ :
        SyntaxFault)
    match linesFault [] false (linesOf lexemes), unclosed with
    | none, unclosed => unclosed
    | some fault, none => some fault
    | some fault, some bracket => some (if bracket.line < fault.line then bracket else fault)

/-- The wording of a fault, with the line. -/
def faultText (fault : SyntaxFault) : String :=
  fault.problem ++ s!" (<unknown>, line {fault.line})"

end Statement
end Check
end ClientForge
