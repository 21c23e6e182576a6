import ClientForge.Diagnostic
import ClientForge.Document.Value
import ClientForge.Text.Blank
import ClientForge.Text.Letters
/-!
# Target languages

The languages that clients can be printed in, by name or by a short name.
-/

namespace ClientForge

/-- A language of generated sources. -/
inductive Language where
  | javaScript
  | typeScript
  | python
deriving DecidableEq, Repr

namespace Language

/-- The full name of a language. -/
def name : Language → String
  | .javaScript => "javascript"
  | .typeScript => "typescript"
  | .python => "python"

/-- The short name of a language. -/
def shortName : Language → String
  | .javaScript => "js"
  | .typeScript => "ts"
  | .python => "py"

/-- All languages, in the order of messages. -/
def all : List Language :=
  [.javaScript, .typeScript, .python]

/-- The language with exactly this full name. -/
def ofFullName? (s : String) : Option Language :=
  all.find? (·.name = s)

/-- A language that was asked for and does not exist. -/
structure Unsupported where
  asked : Option String
deriving DecidableEq, Repr

/-- The report of a language that does not exist, unless what was asked for has no text. -/
def Unsupported.diagnostic? (u : Unsupported) : Option Diagnostic :=
  u.asked.map fun asked =>
    { kind := .unsupportedLanguage
      message := "Unsupported target language '" ++ asked ++ "' (supported: " ++
        Text.join ", " (all.map name) ++ ")" }

/-- The language that a value asks for, in any case and with blanks around it. -/
def parse (v : Value) : Except Unsupported Language :=
  match v.text? with
  | none => .error ⟨none⟩
  | some text =>
    let word := Text.lower (Text.strip text)
    match all.find? (fun l => l.name = word || l.shortName = word) with
    | some language => .ok language
    | none => .error ⟨some text⟩

end Language
end ClientForge
