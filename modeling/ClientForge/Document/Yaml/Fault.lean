import ClientForge.Text.Quoted
/-!
# Faults of YAML texts

A text may be malformed, or well formed and ask for a value that does not exist: a number that
no digits stand for, a day that no calendar has, a character without a code point.
-/

namespace ClientForge
namespace Yaml

/-- A value that a tag, an escape or the form of a scalar asks for and that does not exist. -/
inductive Problem where
  | characterRange
  | characterSize
  | notInteger (base : Nat) (text : String)
  | longInteger (digits : Nat)
  | notNumber (text : String)
  | largeFactor
  | emptyNumber
  | notBoolean (text : String)
  | notTime
  | timeOfMapping
  | impossibleDate (reason : String)
deriving DecidableEq, Repr

/-- Why a text is no document. -/
inductive Fault where
  | malformed
  | value (problem : Problem)
deriving DecidableEq, Repr

/-- The most characters of a text in the report about an integer. -/
def shownIntegerSize : Nat := 200

/-- The wording of a value that does not exist. -/
def Problem.message : Problem → String
  | .characterRange => "chr() arg not in range(0x110000)"
  | .characterSize => "Python int too large to convert to C int"
  | .notInteger base text =>
    s!"invalid literal for int() with base {base}: " ++
      String.ofList ((Text.displayed text).toList.take shownIntegerSize)
  | .longInteger digits =>
    s!"Exceeds the limit (4300 digits) for integer string conversion: value has {digits} digits; " ++
      "use sys.set_int_max_str_digits() to increase the limit"
  | .notNumber text => "could not convert string to float: " ++ Text.displayed text
  | .largeFactor => "int too large to convert to float"
  | .emptyNumber => "string index out of range"
  | .notBoolean text => Text.displayed text
  | .notTime => "'NoneType' object has no attribute 'groupdict'"
  | .timeOfMapping => "expected string or bytes-like object, got 'list'"
  | .impossibleDate reason => reason

end Yaml
end ClientForge
