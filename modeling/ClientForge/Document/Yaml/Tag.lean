import ClientForge.Decimal.Reader
import ClientForge.Document.Yaml.Time
/-!
# Tags of YAML nodes

A tag names the type of a node. Scalars without a tag are resolved by their form, in a fixed
order of forms. A form may be followed by one line end.
-/

namespace ClientForge
namespace Yaml

/-- The types of nodes. A merge key stands for the entries of another mapping. -/
inductive Tag where
  | null
  | bool
  | int
  | float
  | time
  | binary
  | str
  | seq
  | map
  | set
  | pairs
  | merge
  | value
  | unknown
deriving DecidableEq, Repr

namespace Tag

/-- The beginning of the addresses of the standard types. -/
def standard : String := "tag:yaml.org,2002:"

/-- The type with an address. -/
def ofUri (uri : String) : Tag :=
  let names := [("null", null), ("bool", bool), ("int", int), ("float", float),
    ("timestamp", time), ("binary", binary), ("str", str), ("seq", seq), ("map", map),
    ("set", set), ("omap", pairs), ("pairs", pairs), ("merge", merge), ("value", value)]
  ((names.find? fun (name, _) => standard ++ name = uri).map (·.2)).getD unknown

/-! ## Forms of plain scalars -/

/-- A digit or an underscore. -/
def isDigitPart (c : Char) : Bool :=
  Text.isNumeral c || c == '_'

/-- A sequence that begins with a digit and goes on with digits and underscores. -/
def isDigits : List Char → Bool
  | [] => false
  | c :: rest => Text.isNumeral c && rest.all isDigitPart

/-- The same without a leading zero. -/
def isCount : List Char → Bool
  | [] => false
  | c :: rest => Text.isNumeral c && c != '0' && rest.all isDigitPart

/-- One digit, or two of which the first is below six. -/
def isSixtieth : List Char → Bool
  | [a] => Text.isNumeral a
  | [a, b] => '0' ≤ a && a ≤ '5' && Text.isNumeral b
  | _ => false

/-- A number to base sixty: a first part of some form, then at least one more place. -/
def isSexagesimal (first : List Char → Bool) (cs : List Char) : Bool :=
  match Text.splitOn ':' cs with
  | head :: places => first head && !places.isEmpty && places.all isSixtieth
  | [] => false

/-- Nothing, or an exponent with its sign. -/
def isExponent : List Char → Bool
  | [] => true
  | e :: s :: digits =>
    (e == 'e' || e == 'E') && (s == '+' || s == '-') && !digits.isEmpty &&
      digits.all Text.isNumeral
  | _ => false

/-- Digits and underscores, then perhaps an exponent. -/
def isFraction (cs : List Char) : Bool :=
  isExponent (cs.dropWhile isDigitPart)

/-- The words for truth values. -/
def isBoolText (cs : List Char) : Bool :=
  ["yes", "Yes", "YES", "no", "No", "NO", "true", "True", "TRUE", "false", "False", "FALSE", "on",
   "On", "ON", "off", "Off", "OFF"].contains (String.ofList cs)

/-- A binary number: it has a point. -/
def isFloatText (cs : List Char) : Bool :=
  let (_, body) := Binary64.splitSign cs
  match Text.cut '.' body with
  | (_, none) => false
  | ([], some fraction) =>
    let word := String.ofList fraction
    ["inf", "Inf", "INF"].contains word ||
      (body == cs && (["nan", "NaN", "NAN"].contains word ||
        ((fraction.head?.map Text.isNumeral) == some true && isFraction fraction)))
  | (whole, some fraction) =>
    (isDigits whole && isFraction fraction) ||
      (isSexagesimal isDigits whole && fraction.all isDigitPart)

/-- A whole number: binary, octal, decimal, hexadecimal or to base sixty. -/
def isIntText (cs : List Char) : Bool :=
  let (_, body) := Binary64.splitSign cs
  match body with
  | '0' :: 'b' :: rest => !rest.isEmpty && rest.all fun c => c == '0' || c == '1' || c == '_'
  | '0' :: 'x' :: rest => !rest.isEmpty && rest.all fun c => (Text.hexValue? c).isSome || c == '_'
  | '0' :: rest => rest.all fun c => ('0' ≤ c && c ≤ '7') || c == '_'
  | _ => isCount body || isSexagesimal isCount body

/-- The words for nothing. -/
def isNullText (cs : List Char) : Bool :=
  ["", "~", "null", "Null", "NULL"].contains (String.ofList cs)

/-- The type of a scalar by its form. A text that begins with a line end has none of the forms. -/
def ofText (s : String) : Tag :=
  let cs := beforeLineEnd s.toList
  if s = "\n" then .str
  else if isBoolText cs then .bool
  else if isFloatText cs then .float
  else if isIntText cs then .int
  else if cs = ['<', '<'] then .merge
  else if isNullText cs then .null
  else if isTimeText cs then .time
  else if cs = ['='] then .value
  else if cs = ['!'] ∨ cs = ['&'] ∨ cs = ['*'] then .unknown
  else .str

end Tag
end Yaml
end ClientForge
