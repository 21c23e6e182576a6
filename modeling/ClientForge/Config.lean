import ClientForge.Diagnostic
import ClientForge.Document.Value
/-!
# Configuration

The settings of a compilation, read from and written to a mapping. Unknown keys are ignored;
known keys must have the right type.
-/

namespace ClientForge

/-- What happens if the output file exists. -/
inductive OutputMode where
  | force
  | error
deriving DecidableEq, Repr

/-- The word for a mode. -/
def OutputMode.name : OutputMode → String
  | .force => "force"
  | .error => "error"

/-- The mode with a given word. -/
def OutputMode.ofName? (s : String) : Option OutputMode :=
  [OutputMode.force, .error].find? (·.name = s)

/-- How an output file is written. -/
structure OutputConfig where
  mode : OutputMode := .force
  validateBeforeWrite : Bool := true
  atomicWrite : Bool := true
deriving DecidableEq, Repr

/-- The settings of a compilation. -/
structure Config where
  addGenerationComment : Bool := true
  generationCommand : String := ""
  className : String := ""
  output : OutputConfig := {}
deriving DecidableEq, Repr

namespace Config

/-- Why a value is no configuration. -/
inductive Fault where
  | notObject (type : String)
  | outputNotObject (type : String)
  | invalidMode (shown : Option String)
  | wrongType (field expected type : String)
deriving DecidableEq, Repr

/-- The wording of a rejected configuration, unless it has to show what cannot be shown. -/
def Fault.message? : Fault → Option String
  | .notObject type => some s!"Config must be a JSON object, got {type}"
  | .outputNotObject type => some s!"Config field 'output' must be an object, got {type}"
  | .invalidMode shown =>
    shown.map fun mode => s!"Invalid output mode {mode} (expected one of: force, error)"
  | .wrongType field expected type =>
    some s!"Config field '{field}' must be a {expected}, got {type}"

/-- The report of a rejected configuration. -/
def Fault.diagnostic? (f : Fault) : Option Diagnostic :=
  f.message?.map fun message => { kind := .documentLoad, message := message }

/-- A truth value under a field name. -/
def readFlag (field : String) : Value → Except Fault Bool
  | .bool b => .ok b
  | v => .error (.wrongType field "bool" v.typeName)

/-- A string under a field name. -/
def readText (field : String) : Value → Except Fault String
  | .str s => .ok s
  | v => .error (.wrongType field "str" v.typeName)

/-- A mode. -/
def readMode (v : Value) : Except Fault OutputMode :=
  match v with
  | .str s =>
    match OutputMode.ofName? s with
    | some mode => .ok mode
    | none => .error (.invalidMode v.shown?)
  | _ => .error (.invalidMode v.shown?)

/-- The output settings of a value; what is absent has its default. -/
def readOutput : Value → Except Fault OutputConfig
  | .map entries => do
    let mode ← readMode ((Value.lookup? "mode" entries).getD (.str "force"))
    let validate ← readFlag "output.validate_before_write"
      ((Value.lookup? "validate_before_write" entries).getD (.bool true))
    let atomic ← readFlag "output.atomic_write"
      ((Value.lookup? "atomic_write" entries).getD (.bool true))
    pure ⟨mode, validate, atomic⟩
  | v => .error (.outputNotObject v.typeName)

/-- The settings after one more entry. -/
def readEntry (c : Config) (key value : Value) : Except Fault Config :=
  match key with
  | .str "output" => (readOutput value).map fun output => { c with output := output }
  | .str "add_generation_comment" =>
    (readFlag "add_generation_comment" value).map fun b => { c with addGenerationComment := b }
  | .str "generation_command" =>
    (readText "generation_command" value).map fun s => { c with generationCommand := s }
  | .str "class_name" => (readText "class_name" value).map fun s => { c with className := s }
  | _ => .ok c

/-- The settings after entries, in order. -/
def readEntries (c : Config) : List (Value × Value) → Except Fault Config
  | [] => .ok c
  | (key, value) :: rest =>
    match readEntry c key value with
    | .error fault => .error fault
    | .ok next => readEntries next rest

/-- The settings that a value describes. -/
def ofValue : Value → Except Fault Config
  | .map entries => readEntries {} entries
  | v => .error (.notObject v.typeName)

/-- The settings as a mapping. -/
def toValue (c : Config) : Value :=
  .map
    [(.str "add_generation_comment", .bool c.addGenerationComment),
     (.str "generation_command", .str c.generationCommand),
     (.str "class_name", .str c.className),
     (.str "output", .map
       [(.str "mode", .str c.output.mode.name),
        (.str "validate_before_write", .bool c.output.validateBeforeWrite),
        (.str "atomic_write", .bool c.output.atomicWrite)])]

/-- The comment at the top of generated sources; empty for none. -/
def comment (c : Config) : String :=
  if c.addGenerationComment then
    "Generated by xsrc v0.3.0 : " ++
      (if c.generationCommand = "" then "xsrc" else c.generationCommand)
  else ""

end Config
end ClientForge
