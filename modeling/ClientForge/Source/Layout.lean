import ClientForge.Text.Blank
import ClientForge.Text.Split
/-!
# Source layout

Lines of generated sources, and what keeps a source from being printed.
-/

namespace ClientForge
namespace Source

/-- Why a module cannot be printed. -/
inductive Fault where
  | rootWithoutArgument
  | backslashInExpression
deriving DecidableEq, Repr

/-- The wording of an unprintable module. -/
def Fault.message : Fault → String
  | .rootWithoutArgument => "list index out of range"
  | .backslashInExpression => "Unable to avoid backslash in f-string expression part"

/-- One level of indentation. -/
def indentation : String := "    "

/-- Lines moved to the right; blank lines stay as they are. -/
def indent (level : Nat) (ls : List String) : List String :=
  if level = 0 then ls
  else
    ls.map fun line =>
      if Text.isBlankText line then line else Text.repeated indentation level ++ line

/-- The lines above the classes: the comment and an empty line, if there is a comment, then the
fixed lines. They are a prefix template as it is rendered with trimmed blocks: a line with nothing
but a tag leaves no line behind, so without a comment there is no empty line either, and the comment
stands there as it is, with no character escaped. -/
def headerLines (mark comment : String) (fixed : List String) : List String :=
  if comment = "" then fixed else Text.lines (mark ++ " " ++ comment) ++ "" :: fixed

/-- Lines with an empty line between neighbouring groups. -/
def spaced : List (List String) → List String
  | [] => []
  | [group] => group
  | group :: rest => group ++ "" :: spaced rest

end Source
end ClientForge
