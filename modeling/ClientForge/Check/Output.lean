import ClientForge.Check.Brackets
import ClientForge.Check.Statement
import ClientForge.Diagnostic
import ClientForge.Language
import ClientForge.Text.Encoding
/-!
# Output check

The check that a text has to pass before it is written: brackets for JavaScript and TypeScript,
statements for Python. The second stands in for a Python parser, which is not part of this library.
-/

namespace ClientForge
namespace Check

/-- Why a text must not be written. -/
inductive Fault where
  | brackets (fault : Brackets.Fault)
  | statement (fault : SyntaxFault)
  | nullCharacter
  | encoding (fault : Text.EncodeFault)
deriving DecidableEq, Repr

namespace Fault

/-- What is said about every text that is not Python. -/
def notPython : String := "Generated Python code is not valid"

/-- The wording of a failed check. -/
def message : Fault → String
  | .brackets fault => fault.message
  | .statement fault => notPython ++ ": " ++ Statement.faultText fault
  | .nullCharacter => "source code string cannot contain null bytes"
  | .encoding fault => fault.message

/-- The report of a failed check. -/
def diagnostic (fault : Fault) : Diagnostic :=
  { kind := .outputValidation, message := fault.message }

end Fault

/-- The check of Python text. -/
def checkStatements (content : String) : Except Fault Unit :=
  if content.toList.contains '\x00' then .error .nullCharacter
  else
    match Statement.fault? content with
    | none => .ok ()
    | some fault => .error (.statement fault)

/-- The check of a text in a language. -/
def check : Language → String → Except Fault Unit
  | .javaScript, content => (Brackets.check content).mapError .brackets
  | .typeScript, content => (Brackets.check content).mapError .brackets
  | .python, content => checkStatements content

/-- The check of Python text that may have lone halves of surrogate pairs. -/
def checkPython (content : Text.Points) : Except Fault Unit :=
  match content.chars? with
  | none => .error (.encoding content.fault)
  | some cs => checkStatements (String.ofList cs)

end Check
end ClientForge
