import ClientForge.Document.Value
import ClientForge.Document.Yaml.Fault
import ClientForge.Text.Digit
/-!
# Times in YAML

A day, perhaps with a clock and a zone. The form of a time without a clock has two digits for
the month and two for the day; a tag accepts one digit as well.
-/

namespace ClientForge
namespace Yaml

/-- Characters without one line end at their end. -/
def beforeLineEnd (cs : List Char) : List Char :=
  if cs.getLast? = some '\n' then cs.dropLast else cs

/-- The parts of a time: the day, and perhaps hour, minute, second, fraction and zone. -/
structure TimeParts where
  year : List Char
  month : List Char
  day : List Char
  clock : Option (List Char × List Char × List Char × List Char)
  zone : Option (Option (Bool × List Char × List Char))
deriving DecidableEq, Repr

/-- One or two digits and the rest. -/
def oneOrTwo : List Char → Option (List Char × List Char)
  | a :: b :: rest =>
    if Text.isNumeral a then
      if Text.isNumeral b then some ([a, b], rest) else some ([a], b :: rest)
    else none
  | [a] => if Text.isNumeral a then some ([a], []) else none
  | [] => none

/-- So many digits and the rest. -/
def exactly (n : Nat) (cs : List Char) : Option (List Char × List Char) :=
  let digits := cs.take n
  if digits.length = n && digits.all Text.isNumeral then some (digits, cs.drop n) else none

/-- The rest after a character. -/
def after (c : Char) : List Char → Option (List Char)
  | d :: rest => if c = d then some rest else none
  | [] => none

/-- A zone up to the end: universal time, or a sign with hours and perhaps minutes. -/
def readZone (cs : List Char) : Option (Option (Bool × List Char × List Char)) :=
  match cs.dropWhile fun c => c == ' ' || c == '\t' with
  | ['Z'] => some none
  | c :: rest =>
    if c = '+' ∨ c = '-' then do
      let (hours, rest) ← oneOrTwo rest
      match rest with
      | [] => some (some (c == '-', hours, []))
      | _ =>
        let rest ← after ':' rest
        let (minutes, rest) ← exactly 2 rest
        if rest.isEmpty then some (some (c == '-', hours, minutes)) else none
    else none
  | [] => none

/-- A clock and perhaps a zone, up to the end. -/
def readClock (year month day cs : List Char) : Option TimeParts := do
  let (hour, rest) ← oneOrTwo cs
  let rest ← after ':' rest
  let (minute, rest) ← exactly 2 rest
  let rest ← after ':' rest
  let (second, rest) ← exactly 2 rest
  let (fraction, rest) := match rest with
    | '.' :: more => (more.takeWhile Text.isNumeral, more.dropWhile Text.isNumeral)
    | _ => ([], rest)
  let clock := some (hour, minute, second, fraction)
  if rest.isEmpty then some ⟨year, month, day, clock, none⟩
  else do
    let zone ← readZone rest
    some ⟨year, month, day, clock, some zone⟩

/-- The parts of a time. -/
def readTime (cs : List Char) : Option TimeParts := do
  let (year, rest) ← exactly 4 cs
  let rest ← after '-' rest
  let (month, rest) ← oneOrTwo rest
  let rest ← after '-' rest
  let (day, rest) ← oneOrTwo rest
  match rest with
  | [] => some ⟨year, month, day, none, none⟩
  | c :: more =>
    if c = 'T' ∨ c = 't' then readClock year month day more
    else if c = ' ' ∨ c = '\t' then
      readClock year month day (more.dropWhile fun c => c == ' ' || c == '\t')
    else none

/-- A time; a day alone has two digits for the month and two for the day. -/
def isTimeText (cs : List Char) : Bool :=
  match readTime cs with
  | none => false
  | some parts => parts.clock.isSome || cs.length == 10

/-- The day with these numbers. -/
def dayValue (year month day : Nat) : Except Problem Day :=
  if year = 0 then .error (.impossibleDate "year 0 is out of range")
  else if month = 0 ∨ 12 < month then .error (.impossibleDate "month must be in 1..12")
  else if day = 0 ∨ Day.monthLength year month < day then
    .error (.impossibleDate "day is out of range for month")
  else .ok ⟨year, month, day⟩

/-- The offset of a zone in seconds; it is less than a day. -/
def zoneValue : Option (Bool × List Char × List Char) → Except Problem Int
  | none => .ok 0
  | some (negative, hours, minutes) =>
    let size : Int := 3600 * Text.naturalOfDigits hours + 60 * Text.naturalOfDigits minutes
    let offset := if negative then -size else size
    if size < 86400 then .ok offset
    else
      .error (.impossibleDate ("offset must be a timedelta strictly between " ++
        "-timedelta(hours=24) and timedelta(hours=24), not " ++ Moment.shownDelta offset ++ "."))

/-- The millionths of a second that digits after the point stand for. -/
def microseconds (fraction : List Char) : Nat :=
  let digits := fraction.take 6
  Text.naturalOfDigits (digits ++ List.replicate (6 - digits.length) '0')

/-- The value of a time text. -/
def timeValue (s : String) : Except Problem Value :=
  match readTime (beforeLineEnd s.toList) with
  | none => .error .notTime
  | some parts =>
    let day := dayValue (Text.naturalOfDigits parts.year) (Text.naturalOfDigits parts.month)
      (Text.naturalOfDigits parts.day)
    match parts.clock with
    | none => day.map .day
    | some (hour, minute, second, fraction) => do
      let offset ← match parts.zone with
        | none => .ok none
        | some zone => (zoneValue zone).map some
      let day ← day
      let hour := Text.naturalOfDigits hour
      let minute := Text.naturalOfDigits minute
      let second := Text.naturalOfDigits second
      if 23 < hour then .error (.impossibleDate "hour must be in 0..23")
      else if 59 < minute then .error (.impossibleDate "minute must be in 0..59")
      else if 59 < second then .error (.impossibleDate "second must be in 0..59")
      else pure (.moment ⟨day, hour, minute, second, microseconds fraction, offset⟩)

end Yaml
end ClientForge
