import ClientForge.Decimal.Reader
import ClientForge.Decimal.Shortest
import ClientForge.Text.Quoted
import ClientForge.Text.Split
/-!
# Document values

What a decoded document is made of: scalars, sequences, and mappings that keep the order of
their entries. Keys may be any scalar. Messages name the type of a value and show the value
itself, both in the vocabulary of the tool's users. An integer with too many digits cannot be
shown, and neither can a value that has one inside.
-/

namespace ClientForge

/-- A day of the calendar. -/
structure Day where
  year : Nat
  month : Nat
  day : Nat
deriving DecidableEq, Repr

/-- A day with a time, and the offset from universal time in seconds if one was given. -/
structure Moment where
  day : Day
  hour : Nat
  minute : Nat
  second : Nat
  microsecond : Nat
  offset : Option Int
deriving DecidableEq, Repr

/-- A value of a type that schemas have no use for. Messages need the name of the type and the
display form, if it has one. -/
structure OtherValue where
  typeName : String
  shown? : Option String
  isEmpty : Bool
deriving DecidableEq, Repr

/-- A value of a document. -/
inductive Value where
  | null
  | bool (b : Bool)
  | int (n : Int)
  | float (x : Binary64)
  | str (s : String)
  | day (d : Day)
  | moment (m : Moment)
  | other (v : OtherValue)
  | list (items : List Value)
  | map (entries : List (Value × Value))
deriving Repr, Inhabited

/-- A number padded with zeros to a width. -/
def padded (width n : Nat) : String :=
  let digits := Nat.toDigits 10 n
  String.ofList (List.replicate (width - digits.length) '0' ++ digits)

namespace Day

/-- Whether February has a day more. -/
def isLeapYear (year : Nat) : Bool :=
  year % 4 == 0 && (year % 100 != 0 || year % 400 == 0)

/-- The number of days of a month. -/
def monthLength (year month : Nat) : Nat :=
  if month = 2 then if isLeapYear year then 29 else 28
  else if [4, 6, 9, 11].contains month then 30
  else 31

/-- The number of a day, counted from the first day of the first year. -/
def number (d : Day) : Nat :=
  let past := d.year - 1
  365 * past + past / 4 - past / 100 + past / 400 +
    ((List.range d.month).drop 1).foldl (fun n month => n + monthLength d.year month) 0 + d.day

/-- Year, month and day with dashes. -/
def text (d : Day) : String :=
  padded 4 d.year ++ "-" ++ padded 2 d.month ++ "-" ++ padded 2 d.day

/-- The display form. -/
def shown (d : Day) : String :=
  s!"datetime.date({d.year}, {d.month}, {d.day})"

end Day

namespace Moment

/-- The millionths of a second up to a time of the day, from the first day on. -/
def reading (m : Moment) : Int :=
  ((((m.day.number * 24 + m.hour) * 60 + m.minute) * 60 + m.second) * 1000000 + m.microsecond : Nat)

/-- Whether two moments are one: with offsets they are compared in universal time. -/
def same (m n : Moment) : Bool :=
  match m.offset, n.offset with
  | none, none => m == n
  | some a, some b => m.reading - 1000000 * a == n.reading - 1000000 * b
  | _, _ => false

/-- An offset as hours and minutes. -/
def offsetText (seconds : Int) : String :=
  let n := seconds.natAbs
  (if seconds < 0 then "-" else "+") ++ padded 2 (n / 3600) ++ ":" ++ padded 2 (n % 3600 / 60)

/-- Day, time and offset; a fraction of a second only if there is one. -/
def text (m : Moment) : String :=
  m.day.text ++ " " ++ padded 2 m.hour ++ ":" ++ padded 2 m.minute ++ ":" ++ padded 2 m.second ++
    (if m.microsecond = 0 then "" else "." ++ padded 6 m.microsecond) ++
    (match m.offset with
      | none => ""
      | some seconds => offsetText seconds)

/-- The display form of a span of time: whole days, and the seconds beyond them. -/
def shownDelta (seconds : Int) : String :=
  let days := seconds / 86400
  let rest := seconds % 86400
  let parts := (if days = 0 then [] else [s!"days={days}"]) ++
    (if rest = 0 then [] else [s!"seconds={rest}"])
  "datetime.timedelta(" ++ Text.join ", " parts ++ ")"

/-- The display form of an offset. -/
def shownOffset (seconds : Int) : String :=
  if seconds = 0 then "datetime.timezone.utc"
  else "datetime.timezone(" ++ shownDelta seconds ++ ")"

/-- The display form; trailing zero seconds are left out. -/
def shown (m : Moment) : String :=
  let time := [m.day.year, m.day.month, m.day.day, m.hour, m.minute] ++
    (if m.microsecond = 0 then (if m.second = 0 then [] else [m.second])
     else [m.second, m.microsecond])
  let zone := match m.offset with
    | none => []
    | some seconds => ["tzinfo=" ++ shownOffset seconds]
  "datetime.datetime(" ++ Text.join ", " (time.map toString ++ zone) ++ ")"

end Moment

namespace Value

/-- The name of a value's type in messages. -/
def typeName : Value → String
  | .null => "NoneType"
  | .bool _ => "bool"
  | .int _ => "int"
  | .float _ => "float"
  | .str _ => "str"
  | .day _ => "date"
  | .moment _ => "datetime"
  | .other v => v.typeName
  | .list _ => "list"
  | .map _ => "dict"

/-- The text of an integer, unless it has more digits than the limit. -/
def integerText? (n : Int) : Option String :=
  if tenTo integerDigitLimit ≤ n.natAbs then none else some (toString n)

mutual

/-- The display form of a value, if it has one. -/
def shown? : Value → Option String
  | .null => some "None"
  | .bool true => some "True"
  | .bool false => some "False"
  | .int n => integerText? n
  | .float x => some x.text
  | .str s => some (Text.displayed s)
  | .day d => some d.shown
  | .moment m => some m.shown
  | .other v => v.shown?
  | .list items => (shownItems? items).map fun texts => "[" ++ Text.join ", " texts ++ "]"
  | .map entries =>
    (shownEntries? entries).map fun texts => "\x7b" ++ Text.join ", " texts ++ "\x7d"

/-- The display forms of the items of a sequence. -/
def shownItems? : List Value → Option (List String)
  | [] => some []
  | item :: rest => do
    let text ← item.shown?
    let texts ← shownItems? rest
    pure (text :: texts)

/-- The display forms of the entries of a mapping. -/
def shownEntries? : List (Value × Value) → Option (List String)
  | [] => some []
  | (key, value) :: rest => do
    let name ← key.shown?
    let text ← value.shown?
    let texts ← shownEntries? rest
    pure ((name ++ ": " ++ text) :: texts)

end

/-- The bare text of a value: a string as it is, a date in digits, all else as displayed. -/
def text? : Value → Option String
  | .str s => some s
  | .day d => some d.text
  | .moment m => some m.text
  | v => v.shown?

/-- What is said in place of a message with an integer that cannot be shown. -/
def longTextMessage : String :=
  s!"Exceeds the limit ({integerDigitLimit} digits) for integer string conversion; " ++
    "use sys.set_int_max_str_digits() to increase the limit"

/-- Whether a value counts as given: empty, zero and absent values do not. -/
def isTruthy : Value → Bool
  | .null => false
  | .bool b => b
  | .int n => n != 0
  | .float (.finite _ 0 _) => false
  | .float _ => true
  | .str s => s != ""
  | .day _ => true
  | .moment _ => true
  | .other v => !v.isEmpty
  | .list items => !items.isEmpty
  | .map entries => !entries.isEmpty

/-- The whole number that a truth value or integer stands for as a key. -/
def keyNumber? : Value → Option Int
  | .bool b => some (if b then 1 else 0)
  | .int n => some n
  | _ => none

/-- Whether two scalars are the same mapping key. Truth values and numbers are compared as
numbers. -/
def sameKey : Value → Value → Bool
  | .null, .null => true
  | .str s, .str t => s == t
  | .day d, .day e => d == e
  | .moment m, .moment n => m.same n
  | .other v, .other w => v == w
  | .float x, .float y => x.sameKey y
  | .float x, v =>
    match v.keyNumber? with
    | some n => x.isInteger n
    | none => false
  | v, .float x =>
    match v.keyNumber? with
    | some n => x.isInteger n
    | none => false
  | v, w =>
    match v.keyNumber?, w.keyNumber? with
    | some m, some n => m == n
    | _, _ => false

/-- The value under a string key. -/
def lookup? (key : String) : List (Value × Value) → Option Value
  | [] => none
  | (.str k, v) :: rest => if k = key then some v else lookup? key rest
  | _ :: rest => lookup? key rest

/-- The value under a string key, null if there is none. -/
def field (key : String) (entries : List (Value × Value)) : Value :=
  (lookup? key entries).getD .null

/-- Entries with a key set: a known key keeps its place and its first spelling. -/
def put (entries : List (Value × Value)) (key value : Value) : List (Value × Value) :=
  match entries with
  | [] => [(key, value)]
  | (k, v) :: rest =>
    if k.sameKey key then (k, value) :: rest else (k, v) :: put rest key value

end Value
end ClientForge
