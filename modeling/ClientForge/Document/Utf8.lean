import ClientForge.Text.Quoted
/-!
# UTF-8

Octets to characters. A malformed sequence is reported with its offset and the length of the
part that is certainly wrong.
-/

namespace ClientForge
namespace Utf8

/-- What is wrong with a sequence of octets. -/
inductive Problem where
  | start
  | continuation
  | ending
deriving DecidableEq, Repr

/-- A malformed sequence: the offset and value of its first octet, and how many octets are
wrong. -/
structure Fault where
  problem : Problem
  offset : Nat
  octet : Nat
  count : Nat
deriving DecidableEq, Repr

/-- The wording of a malformed sequence. -/
def Fault.message (f : Fault) : String :=
  let reason := match f.problem with
    | .start => "invalid start byte"
    | .continuation => "invalid continuation byte"
    | .ending => "unexpected end of data"
  if f.count = 1 then
    "'utf-8' codec can't decode byte 0x" ++ String.ofList (Text.hex 2 f.octet) ++
      s!" in position {f.offset}: " ++ reason
  else
    s!"'utf-8' codec can't decode bytes in position {f.offset}-{f.offset + f.count - 1}: " ++
      reason

/-- Whether an octet continues a sequence. -/
def isTail (b : Nat) : Bool :=
  0x80 ≤ b && b ≤ 0xBF

/-- How many octets follow a first octet, and the range of the first of them. -/
def leading (b : Nat) : Option (Nat × Nat × Nat) :=
  if 0xC2 ≤ b && b ≤ 0xDF then some (1, 0x80, 0xBF)
  else if b = 0xE0 then some (2, 0xA0, 0xBF)
  else if b = 0xED then some (2, 0x80, 0x9F)
  else if 0xE1 ≤ b && b ≤ 0xEF then some (2, 0x80, 0xBF)
  else if b = 0xF0 then some (3, 0x90, 0xBF)
  else if 0xF1 ≤ b && b ≤ 0xF3 then some (3, 0x80, 0xBF)
  else if b = 0xF4 then some (3, 0x80, 0x8F)
  else none

/-- The octets of a sequence after its first one, as far as they are right, and whether a wrong
octet stopped them. -/
def tailOf (low high : Nat) : Nat → List Nat → List Nat × Bool
  | 0, _ => ([], false)
  | _, [] => ([], false)
  | n + 1, b :: rest =>
    if low ≤ b && b ≤ high then
      let (more, wrong) := tailOf 0x80 0xBF n rest
      (b :: more, wrong)
    else ([], true)

/-- The character that a first octet and its tail stand for. -/
def assemble (first : Nat) (tail : List Nat) : Char :=
  let bits := match tail.length with
    | 1 => first - 0xC0
    | 2 => first - 0xE0
    | _ => first - 0xF0
  Char.ofNat (tail.foldl (fun n b => n * 64 + (b - 0x80)) bits)

/-- The characters of octets from an offset on; `skip` octets belong to a character that has
been read. -/
def decodeFrom (offset : Nat) : Nat → List Nat → Except Fault (List Char)
  | _, [] => .ok []
  | skip + 1, _ :: rest => decodeFrom (offset + 1) skip rest
  | 0, b :: rest =>
    if b < 0x80 then (decodeFrom (offset + 1) 0 rest).map (Char.ofNat b :: ·)
    else
      match leading b with
      | none => .error ⟨.start, offset, b, 1⟩
      | some (count, low, high) =>
        let (tail, wrong) := tailOf low high count rest
        if tail.length = count then
          (decodeFrom (offset + 1) count rest).map (assemble b tail :: ·)
        else if wrong then .error ⟨.continuation, offset, b, 1 + tail.length⟩
        else .error ⟨.ending, offset, b, 1 + tail.length⟩

/-- The characters of octets. -/
def decode (octets : List UInt8) : Except Fault (List Char) :=
  decodeFrom 0 0 (octets.map UInt8.toNat)

end Utf8
end ClientForge
