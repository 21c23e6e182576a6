import ClientForge.Document.Yaml.Fault
/-!
# YAML tokens

The signs, names and scalars of a YAML text. Whether a token begins a mapping key is known only
when the colon after it is reached; such keys are noted beside the tokens and put in front of
them at the end.
-/

namespace ClientForge
namespace Yaml

/-- A line about the document as a whole. -/
inductive Directive where
  | version (major : Nat)
  | handle (handle : String) (uri : String)
  | other
deriving DecidableEq, Repr

/-- A token. Blocks have no signs of their own: they begin and end with the indentation. -/
inductive Token where
  | directive (d : Directive)
  | documentStart
  | documentEnd
  | blockSequence
  | blockMapping
  | blockEnd
  | openBracket
  | closeBracket
  | openBrace
  | closeBrace
  | comma
  | dash
  | key
  | value
  | alias (name : String)
  | anchor (name : String)
  | tag (handle : Option String) (suffix : String)
  | scalar (text : String) (plain : Bool)
deriving DecidableEq, Repr

/-- A token that turned out to begin a key, by its number; its mapping may begin there too. -/
structure KeyMark where
  slot : Nat
  opensMapping : Bool
deriving DecidableEq, Repr

/-- The tokens that a mark stands for. -/
def KeyMark.tokens (mark : KeyMark) : List Token :=
  if mark.opensMapping then [.blockMapping, .key] else [.key]

/-- Tokens with their marks put in front of them, the first token having a given number. -/
def weave (marks : List KeyMark) (slot : Nat) : List Token → List Token
  | [] => []
  | token :: rest =>
    (marks.filter (·.slot = slot)).flatMap KeyMark.tokens ++
      token :: weave marks (slot + 1) rest

end Yaml
end ClientForge
