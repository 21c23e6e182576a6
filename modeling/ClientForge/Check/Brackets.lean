import ClientForge.Text.Split
/-!
# Bracket check

A structural check of JavaScript and TypeScript texts: some class is declared, and the brackets
outside of quoted literals and line comments are balanced. Substitutions inside a template are
part of the literal.
-/

namespace ClientForge
namespace Check
namespace Brackets

/-- Why a text fails the check. Offsets count characters from the beginning. -/
inductive Fault where
  | noClass
  | unterminated (start : Nat)
  | unbalanced (bracket : Char) (offset : Nat)
  | unclosed (count : Nat)
deriving DecidableEq, Repr

/-- The wording of a failed check. -/
def Fault.message : Fault → String
  | .noClass => "Generated code has no class definitions"
  | .unterminated start => s!"Unterminated string literal starting at offset {start}"
  | .unbalanced bracket offset => s!"Unbalanced '{bracket}' at offset {offset}"
  | .unclosed count => s!"Generated code has {count} unclosed bracket(s)"

/-- The characters that begin and end literals. -/
def isQuote (c : Char) : Bool :=
  c == '"' || c == '\'' || c == '\x60'

/-- The brackets that open. -/
def isOpening (c : Char) : Bool :=
  c == '\x7b' || c == '(' || c == '['

/-- The opening bracket that a closing one belongs to. -/
def partner? (c : Char) : Option Char :=
  if c = '\x7d' then some '\x7b'
  else if c = ')' then some '('
  else if c = ']' then some '['
  else none

/-- What the characters at a place belong to. A literal remembers its quote and its offset; the
character after a backslash never ends a literal. -/
inductive Mode where
  | code
  | comment
  | quoted (quote : Char) (start : Nat)
  | escaped (quote : Char) (start : Nat)
deriving DecidableEq, Repr

/-- The check from an offset on, with the brackets that are open there, the innermost first. -/
def walk (offset : Nat) (opened : List Char) : Mode → List Char → Except Fault Unit
  | .quoted _ start, [] => .error (.unterminated start)
  | .escaped _ start, [] => .error (.unterminated start)
  | _, [] => if opened.isEmpty then .ok () else .error (.unclosed opened.length)
  | .comment, c :: rest =>
    walk (offset + 1) opened (if c = '\n' then .code else .comment) rest
  | .escaped quote start, _ :: rest => walk (offset + 1) opened (.quoted quote start) rest
  | .quoted quote start, c :: rest =>
    if c = '\\' then walk (offset + 1) opened (.escaped quote start) rest
    else if c = quote then walk (offset + 1) opened .code rest
    else walk (offset + 1) opened (.quoted quote start) rest
  | .code, c :: rest =>
    if isQuote c then walk (offset + 1) opened (.quoted c offset) rest
    else if c = '/' ∧ rest.head? = some '/' then walk (offset + 1) opened .comment rest
    else if isOpening c then walk (offset + 1) (c :: opened) .code rest
    else
      match partner? c with
      | none => walk (offset + 1) opened .code rest
      | some partner =>
        match opened with
        | [] => .error (.unbalanced c offset)
        | innermost :: outer =>
          if innermost = partner then walk (offset + 1) outer .code rest
          else .error (.unbalanced c offset)

/-- The check of a whole text. -/
def check (content : String) : Except Fault Unit :=
  if Text.contains "class ".toList content.toList then walk 0 [] .code content.toList
  else .error .noClass

end Brackets
end Check
end ClientForge
