/-!
# Diagnostics

The report of a failed compilation: its kind, a message, and the place in the document. Each
stage has an error type of its own and says how its errors are reported.
-/

namespace ClientForge

/-- The kinds of failure, each with its own exit code. -/
inductive Diagnostic.Kind where
  | general
  | documentLoad
  | schemaParse
  | expressionSyntax
  | typeSpec
  | contextResolution
  | duplicateName
  | unsupportedLanguage
  | outputValidation
deriving DecidableEq, Repr

/-- The exit code of the tool after a failure. -/
def Diagnostic.Kind.exitCode : Diagnostic.Kind → Nat
  | .general => 1
  | .documentLoad => 2
  | .schemaParse => 3
  | .expressionSyntax => 4
  | .typeSpec => 4
  | .contextResolution => 5
  | .duplicateName => 6
  | .unsupportedLanguage => 7
  | .outputValidation => 8

/-- A failure as it is reported. -/
structure Diagnostic where
  kind : Diagnostic.Kind
  message : String
  path : String := ""
  column : Option Int := none
deriving DecidableEq, Repr

namespace Diagnostic

/-- A path for messages; the document itself has no name. -/
def location (path : String) : String :=
  if path = "" then "(root)" else path

/-- The place is filled in only if none is known yet. -/
def withPath (d : Diagnostic) (path : String) : Diagnostic :=
  if d.path = "" then { d with path := path } else d

/-- Place, message, and the column if there is one. -/
def text (d : Diagnostic) : String :=
  location d.path ++ ": " ++ d.message ++
    match d.column with
    | none => ""
    | some column => s!" (at column {column})"

end Diagnostic

/-- The keys that lead from the document to one of its entries. -/
abbrev KeyPath := List String

/-- The keys of a path with dots between them. -/
def KeyPath.dotted : KeyPath → String
  | [] => ""
  | [key] => key
  | key :: rest => key ++ "." ++ KeyPath.dotted rest

end ClientForge
