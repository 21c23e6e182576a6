import ClientForge.Source.PythonText
import ClientForge.Source.Script
/-!
# Printing

The source text of a module in its language, and the parts of it that stand alone.
-/

namespace ClientForge
namespace Source

/-- The source of a module. -/
def render (m : Module) : Except Fault String :=
  match m.language with
  | .javaScript => Script.source .plain m
  | .typeScript => Script.source .typed m
  | .python => PythonText.source m

/-- The lines above the classes in a language. -/
def header (language : Language) (comment : String) : List String :=
  match language with
  | .python => PythonText.header comment
  | _ => Script.header comment

/-- The name of a type in a language. -/
def typeName (language : Language) (type : Primitive) : String :=
  match language with
  | .python => PythonText.typeName type
  | _ => Script.typeName type

/-- The report of a language that no sources can be printed in. -/
def unprintable (language : String) : Diagnostic :=
  { kind := .unsupportedLanguage, message := s!"No serializer registered for '{language}'" }

end Source
end ClientForge
