import ClientForge.Source.Layout
import ClientForge.Text.Quoted
/-!
# Formatted strings

Python string literals with expressions in them. The quote is chosen while the parts are
written from left to right: each part rules out the quotes that occur in it, and what has been
written is not looked at again.

Parts that are fine by themselves may rule out all quotes together. Releases of Python differ in
what they do then: the earlier ones go on with a quote that occurs in an earlier part, so that the
literal may not be one; the later ones, 3.11.10 among them, write all parts once more with every
single quote escaped.
-/

namespace ClientForge
namespace Source
namespace FormattedText

/-- A part of a formatted string. -/
inductive Part where
  | text (s : String)
  | expression (code : String)
deriving DecidableEq, Repr

/-- The quotes that a string may have, the preferred one first. -/
def quotes : List (List Char) :=
  [['\''], ['"'], ['"', '"', '"'], ['\'', '\'', '\'']]

/-- Braces of text are written twice. -/
def doubleBraces (cs : List Char) : List Char :=
  cs.flatMap fun c => if c = '\x7b' || c = '\x7d' then [c, c] else [c]

/-- The characters of a part between braces, or with its braces doubled. -/
def Part.written : Part → Except Fault (List Char)
  | .text s => .ok (doubleBraces s.toList)
  | .expression code =>
    if code.toList.contains '\\' then .error .backslashInExpression
    else
      let gap := if code.toList.head? = some '\x7b' then [' '] else []
      .ok ('\x7b' :: gap ++ code.toList ++ ['\x7d'])

/-- Escapes; line feeds and tabs of expressions stay. -/
def Part.escaped (part : Part) (cs : List Char) : List Char :=
  match part with
  | .text _ => cs.flatMap Text.escapeChar
  | .expression _ =>
    cs.flatMap fun c => if c = '\n' || c = '\t' then [c] else Text.escapeChar c

/-- The quotes whose first character differs from a character, then the others. -/
def preferOther (last : Char) (qs : List (List Char)) : List (List Char) :=
  qs.filter (·.head? != some last) ++ qs.filter (·.head? == some last)

/-- The characters with a backslash before the last one. -/
def guardLast : List Char → List Char
  | [] => []
  | [c] => ['\\', c]
  | c :: cs => c :: guardLast cs

/-- A part as it is written, and the quotes that remain possible. -/
def writePart (possible : List (List Char)) (part : Part) (cs : List Char) :
    List Char × List (List Char) :=
  let escaped := part.escaped cs
  let long := if escaped.contains '\n' then possible.filter (·.length = 3) else possible
  let left := long.filter fun q => !Text.contains q escaped
  match left, escaped.getLast? with
  | [], _ =>
    let quote := Text.displayQuote cs
    (Text.displayBody quote cs, [(possible.find? (·.contains quote)).getD [quote]])
  | left, none => (escaped, left)
  | left, some last =>
    let sorted := preferOther last left
    if (sorted.head?.bind (·.head?)) = some last then (guardLast escaped, sorted)
    else (escaped, sorted)

/-- All parts as they are written, and the quotes that remain possible. -/
def writeParts (possible : List (List Char)) :
    List Part → Except Fault (List Char × List (List Char))
  | [] => .ok ([], possible)
  | part :: rest => do
    let cs ← part.written
    let (here, next) := writePart possible part cs
    let (others, last) ← writeParts next rest
    pure (here ++ others, last)

/-- What a release of Python does with parts that rule out all quotes together. -/
inductive Release where
  | early
  | late
deriving DecidableEq, Repr

/-- Whether there is a part that leaves none of the quotes that the parts before it have left. -/
def ruleOutAll (possible : List (List Char)) : List Part → Except Fault Bool
  | [] => .ok false
  | part :: rest => do
    let cs ← part.written
    let next := (writePart possible part cs).2
    if next.any possible.contains then ruleOutAll next rest else pure true

/-- All parts with every single quote escaped. -/
def rewriteParts : List Part → Except Fault (List Char)
  | [] => .ok []
  | part :: rest => do
    let cs ← part.written
    let others ← rewriteParts rest
    pure (Text.displayBody '\'' cs ++ others)

/-- The body of a formatted string and its quote. -/
def bodyAndQuote (release : Release) (parts : List Part) :
    Except Fault (List Char × List Char) := do
  let (body, possible) ← writeParts quotes parts
  let clash ← ruleOutAll quotes parts
  if release = .late ∧ clash then
    let again ← rewriteParts parts
    pure (again, ['\'', '\'', '\''])
  else pure (body, possible.head?.getD [])

/-- The literal of a formatted string. -/
def literal (release : Release) (parts : List Part) : Except Fault String :=
  (bodyAndQuote release parts).map fun (body, quote) =>
    String.ofList ('f' :: quote ++ body ++ quote)

end FormattedText
end Source
end ClientForge
