import ClientForge.Text.Printable
/-!
# Quoted text

Two ways to write a text between quotes: the display form of messages and of Python sources,
which escapes what does not print, and the ASCII form of JavaScript sources.
-/

namespace ClientForge
namespace Text

/-- The hexadecimal digits of a number, padded with zeros to a width. -/
def hex (width : Nat) (n : Nat) : List Char :=
  let digits := Nat.toDigits 16 n
  List.replicate (width - digits.length) '0' ++ digits

/-- A backslash escape for a backslash or a character that does not print. -/
def escapeChar (c : Char) : List Char :=
  if c = '\\' then ['\\', '\\']
  else if isPrintable c then [c]
  else if c = '\n' then ['\\', 'n']
  else if c = '\r' then ['\\', 'r']
  else if c = '\t' then ['\\', 't']
  else if c.toNat < 0x100 then '\\' :: 'x' :: hex 2 c.toNat
  else if c.toNat < 0x10000 then '\\' :: 'u' :: hex 4 c.toNat
  else '\\' :: 'U' :: hex 8 c.toNat

/-- The quote around a displayed text: double exactly if the text has single quotes only. -/
def displayQuote (cs : List Char) : Char :=
  if cs.contains '\'' && !cs.contains '"' then '"' else '\''

/-- The inside of a displayed text: escapes, and a backslash before the surrounding quote. -/
def displayBody (quote : Char) (cs : List Char) : List Char :=
  cs.flatMap fun c => if c = quote then ['\\', c] else escapeChar c

/-- A text in quotes, as messages and Python sources show it. -/
def displayed (s : String) : String :=
  let quote := displayQuote s.toList
  String.ofList (quote :: displayBody quote s.toList ++ [quote])

/-- Octets in quotes after the letter b: ASCII characters are shown, other octets escaped. -/
def displayedOctets (octets : List UInt8) : String :=
  let cs := octets.map fun b => Char.ofNat b.toNat
  let quote := displayQuote cs
  let body := cs.flatMap fun c =>
    if c = quote then ['\\', c]
    else if c.toNat < 0x7F then escapeChar c
    else '\\' :: 'x' :: hex 2 c.toNat
  String.ofList ('b' :: quote :: body ++ [quote])

/-- The escape of one UTF-16 unit. -/
def unitEscape (n : Nat) : List Char :=
  '\\' :: 'u' :: hex 4 n

/-- A character inside an ASCII string literal. -/
def asciiChar (c : Char) : List Char :=
  if c = '"' then ['\\', '"']
  else if c = '\\' then ['\\', '\\']
  else if c = '\n' then ['\\', 'n']
  else if c = '\r' then ['\\', 'r']
  else if c = '\t' then ['\\', 't']
  else if c.toNat = 0x08 then ['\\', 'b']
  else if c.toNat = 0x0C then ['\\', 'f']
  else if 0x20 ≤ c.toNat && c.toNat ≤ 0x7E then [c]
  else if c.toNat < 0x10000 then unitEscape c.toNat
  else
    unitEscape (0xD800 + (c.toNat - 0x10000) / 0x400) ++
      unitEscape (0xDC00 + (c.toNat - 0x10000) % 0x400)

/-- A text as a double-quoted literal of ASCII characters, with surrogate pairs beyond the
basic plane. -/
def asciiLiteral (s : String) : String :=
  String.ofList ('"' :: s.toList.flatMap asciiChar ++ ['"'])

end Text
end ClientForge
