import ClientForge.Decimal.Reader
import ClientForge.Decimal.Shortest
import ClientForge.Diagnostic
import ClientForge.Text.Blank
import ClientForge.Text.Quoted
import ClientForge.Text.Split
/-!
# Type specs

A type spec is a primitive type, optionally followed by `|default:` and a default value. A
backslash takes the next character literally, so every string can be a default.
-/

namespace ClientForge

/-- The types of parameters. -/
inductive Primitive where
  | string
  | number
  | boolean
deriving DecidableEq, Repr

namespace Primitive

/-- The name of a type in schemas. -/
def name : Primitive → String
  | .string => "string"
  | .number => "number"
  | .boolean => "boolean"

/-- All types, in the order of messages. -/
def all : List Primitive :=
  [.string, .number, .boolean]

/-- The type with a given name. -/
def ofName? (s : String) : Option Primitive :=
  all.find? (·.name = s)

end Primitive

/-- The value of a default. -/
inductive Literal where
  | null
  | boolean (b : Bool)
  | integer (n : Int)
  | number (x : Binary64)
  | string (s : String)
deriving DecidableEq, Repr

/-- A type with its default, if it declares one. -/
structure TypeSpec where
  primitive : Primitive := .string
  default : Option Literal := none
deriving DecidableEq, Repr

namespace TypeSpec

/-- Why a text is no default of a type. -/
inductive DefaultFault where
  | notBoolean (raw : String)
  | notNumber (raw : String)
  | notFinite (raw : String)
  | tooLong (digits : Nat)
deriving DecidableEq, Repr

/-- The wording of a rejected default. -/
def DefaultFault.message : DefaultFault → String
  | .notBoolean raw => s!"'{raw}' is not a boolean (expected true or false)"
  | .notNumber raw => "could not convert string to float: " ++ Text.displayed raw
  | .notFinite raw => s!"'{raw}' is not a finite number"
  | .tooLong digits =>
    s!"Exceeds the limit ({integerDigitLimit} digits) for integer string conversion: " ++
      s!"value has {digits} digits; use sys.set_int_max_str_digits() to increase the limit"

/-- Why a text is no type spec. -/
inductive Fault where
  | danglingEscape
  | unknownType (name : String)
  | malformedModifier (part : String)
  | unknownModifier (name : String)
  | repeatedModifier (name : String)
  | invalidDefault (primitive : Primitive) (cause : DefaultFault)
deriving DecidableEq, Repr

/-- The wording of a rejected type spec. -/
def Fault.message : Fault → String
  | .danglingEscape => "Dangling escape character at end of type spec"
  | .unknownType name =>
    s!"Unknown type '{name}' (expected one of: " ++
      Text.join ", " (Primitive.all.map Primitive.name) ++ ")"
  | .malformedModifier part => s!"Malformed modifier '{part}' (expected name:value)"
  | .unknownModifier name => s!"Unknown modifier '{name}'"
  | .repeatedModifier name => s!"Modifier '{name}' given more than once"
  | .invalidDefault primitive cause =>
    "Invalid default for " ++ primitive.name ++ ": " ++ cause.message

/-- The report of a rejected type spec at a path and column. -/
def Fault.diagnostic (f : Fault) (path : String) (column : Option Int) : Diagnostic :=
  { kind := .typeSpec, message := f.message, path := path, column := column }

/-- The pieces with a character put before the first one. -/
def prepend (c : Char) : List (List Char) → List (List Char)
  | [] => [[c]]
  | piece :: pieces => (c :: piece) :: pieces

/-- The sections between unescaped bars, escapes resolved; `none` if a backslash ends the
text. -/
def sections : List Char → Option (List (List Char))
  | [] => some [[]]
  | ['\\'] => none
  | '\\' :: c :: rest => (sections rest).map (prepend c)
  | c :: rest =>
    if c = '|' then (sections rest).map ([] :: ·) else (sections rest).map (prepend c)

/-- A truth value in any case. -/
def readBoolean (raw : String) : Except DefaultFault Literal :=
  let word := Text.lower raw
  if word = "true" then .ok (.boolean true)
  else if word = "false" then .ok (.boolean false)
  else .error (.notBoolean raw)

/-- A whole number if there are only digits, else a finite number of the binary format. -/
def readNumber (raw : String) : Except DefaultFault Literal :=
  if isIntegerText raw.toList then
    let digits := (Binary64.splitSign raw.toList).2.length
    if integerDigitLimit < digits then .error (.tooLong digits)
    else .ok (.integer (integerOfText raw.toList))
  else
    match Binary64.read? raw with
    | none => .error (.notNumber raw)
    | some x => if x.isFinite then .ok (.number x) else .error (.notFinite raw)

/-- The default of a type that a text stands for. -/
def readDefault (primitive : Primitive) (raw : String) : Except DefaultFault Literal :=
  match primitive with
  | .string => .ok (.string raw)
  | .boolean => readBoolean raw
  | .number => readNumber raw

/-- The default among the sections after the type. -/
def readModifiers (primitive : Primitive) :
    Option Literal → List (List Char) → Except Fault (Option Literal)
  | found, [] => .ok found
  | found, part :: rest =>
    match Text.cut ':' part with
    | (_, none) => .error (.malformedModifier (String.ofList part))
    | (before, some raw) =>
      let name := String.ofList (Text.trim before)
      if name = "" then .error (.malformedModifier (String.ofList part))
      else if name ≠ "default" then .error (.unknownModifier name)
      else if found.isSome then .error (.repeatedModifier name)
      else
        match readDefault primitive (String.ofList (Text.trim raw)) with
        | .error cause => .error (.invalidDefault primitive cause)
        | .ok value => readModifiers primitive (some value) rest

/-- The type spec that sections stand for. -/
def ofSections : List (List Char) → Except Fault TypeSpec
  | [] => .error (.unknownType "")
  | head :: rest =>
    let name := String.ofList (Text.trim head)
    match Primitive.ofName? name with
    | none => .error (.unknownType name)
    | some primitive => (readModifiers primitive none rest).map fun d => ⟨primitive, d⟩

/-- The type spec that a text stands for. -/
def parse (s : String) : Except Fault TypeSpec :=
  match sections s.toList with
  | none => .error .danglingEscape
  | some parts => ofSections parts

end TypeSpec
end ClientForge
