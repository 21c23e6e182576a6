import ClientForge.Diagnostic
import ClientForge.Document.Json
import ClientForge.Document.Utf8
import ClientForge.Document.Yaml
import ClientForge.Files.Route
import ClientForge.Log
/-!
# Loading documents

A schema file as a value: JSON if the name ends with that suffix, YAML otherwise. Files that
cannot be read or decoded are reported with their location; texts that are not UTF-8 and values
that do not exist are failures of their own.
-/

namespace ClientForge
namespace Load

open Files (Location Tree)

/-- Why a file gives no value. -/
inductive Fault where
  | unreadable (fault : Files.Fault)
  | malformed (reason : String)
  | encoding (fault : Utf8.Fault)
  | longInteger (digits : Nat)
  | value (problem : Yaml.Problem)
deriving DecidableEq, Repr

/-- The suffix of a name: from the last dot on, unless the dot is its first or last character. -/
def suffix (name : String) : String :=
  let reversed := name.toList.reverse
  let ending := (reversed.takeWhile (· ≠ '.')).reverse
  let start := (reversed.dropWhile (· ≠ '.')).drop 1
  if ending.isEmpty ∨ start.isEmpty then "" else String.ofList ('.' :: ending)

/-- Whether a file holds JSON. -/
def isJson (place : Location) : Bool :=
  Text.lower (suffix (place.getLast?.getD "")) == ".json"

/-- The value of JSON octets. -/
def json (octets : List UInt8) : Except Fault Value :=
  match Utf8.decode octets with
  | .error fault => .error (.encoding fault)
  | .ok decoded =>
    let cs := Text.unifyLineEnds decoded
    match Json.parse cs with
    | .ok value => .ok value
    | .error (.malformed cause offset) => .error (.malformed (": " ++ Json.located cs cause offset))
    | .error (.longInteger digits) => .error (.longInteger digits)

/-- The value of YAML octets. A sequence that is cut off by the end of the file is reported at the
beginning of what is left to decode. -/
def yaml (octets : List UInt8) : Except Fault Value :=
  match Utf8.decode octets with
  | .error fault =>
    .error (.encoding (if fault.problem = .ending then { fault with offset := 0 } else fault))
  | .ok decoded =>
    match Yaml.parse (Text.unifyLineEnds decoded) with
    | .ok value => .ok value
    | .error .malformed => .error (.malformed "")
    | .error (.value problem) => .error (.value problem)

/-- The value of a schema file. -/
def document (tree : Tree) (place : Location) : Except Fault Value :=
  match tree.read place with
  | .error fault => .error (.unreadable fault)
  | .ok octets => if isJson place then json octets else yaml octets

/-- A failure that is reported with the location of the file. -/
def report (path message : String) : Diagnostic :=
  { kind := .documentLoad, message := message, path := path }

/-- The log line of a loaded document. -/
def logLine (path : String) : LogLine :=
  ⟨"xsrc.pipeline.loader", "Loaded schema document " ++ path⟩

end Load
end ClientForge
