import ClientForge.Text.Quoted
import ClientForge.Text.Split
/-!
# File trees

Files, directories and links under a root. Several locations may be names of one file, and then
they have one content. Permissions, the sizes of files, what a name may hold, and entries of other
kinds are left out: nothing is refused for their sake.
-/

namespace ClientForge
namespace Files

/-- The names that lead from the root to an entry; the root has none. -/
abbrev Location := List String

namespace Location

/-- One more name: a dot stays, two dots go up. -/
def enter (place : Location) (name : String) : Location :=
  if name = "" ∨ name = "." then place
  else if name = ".." then place.dropLast
  else place ++ [name]

/-- A location as text under the text of the root. -/
def shown (root : String) (place : Location) : String :=
  place.foldl (fun text name => text ++ "/" ++ name) root

end Location

/-- The path that a link stands for, from the root or from where the link is. -/
structure Target where
  fromRoot : Bool
  names : List String
deriving DecidableEq, Repr

/-- Where the names of a link's path begin. -/
def Target.start (target : Target) (here : Location) : Location :=
  if target.fromRoot then [] else here

/-- What there is at a location. The content of a file is kept under a number. -/
inductive Entry where
  | file (number : Nat)
  | directory
  | link (target : Target)
deriving DecidableEq, Repr

/-- The number of a file. -/
def Entry.number? : Entry → Option Nat
  | .file number => some number
  | _ => none

/-- The entries of a tree and the contents of its files. The root itself is a directory. -/
structure Tree where
  entries : List (Location × Entry) := []
  contents : List (Nat × List UInt8) := []
deriving DecidableEq, Repr

/-- What can be seen of an entry: the number of a file cannot. -/
inductive Seen where
  | file (octets : List UInt8)
  | directory
  | link (target : Target)
deriving DecidableEq, Repr

/-- Why the system refuses an operation. -/
inductive Refusal where
  | missing
  | fileExists
  | notDirectory
  | isDirectory
  | busy
  | manyLinks
deriving DecidableEq, Repr

/-- The number of a refusal. -/
def Refusal.number : Refusal → Nat
  | .missing => 2
  | .fileExists => 17
  | .notDirectory => 20
  | .isDirectory => 21
  | .busy => 16
  | .manyLinks => 40

/-- The wording of a refusal. -/
def Refusal.message : Refusal → String
  | .missing => "No such file or directory"
  | .fileExists => "File exists"
  | .notDirectory => "Not a directory"
  | .isDirectory => "Is a directory"
  | .busy => "Device or resource busy"
  | .manyLinks => "Too many levels of symbolic links"

/-- A refused operation and the names it was about, as they were given. -/
structure Fault where
  refusal : Refusal
  location : Location
deriving DecidableEq, Repr

/-- The number, the wording and the location of a refused operation. -/
def Fault.text (root : String) (fault : Fault) : String :=
  s!"[Errno {fault.refusal.number}] " ++ fault.refusal.message ++ ": " ++
    Text.displayed (fault.location.shown root)

namespace Tree

/-- The entry at a location. -/
def find? (tree : Tree) (place : Location) : Option Entry :=
  if place = [] then some .directory else tree.entries.lookup place

/-- The content under a number. -/
def content (tree : Tree) (number : Nat) : List UInt8 :=
  (tree.contents.lookup number).getD []

/-- An entry as it can be seen. -/
def see (tree : Tree) : Entry → Seen
  | .file number => .file (tree.content number)
  | .directory => .directory
  | .link target => .link target

/-- What can be seen at a location. -/
def seen? (tree : Tree) (place : Location) : Option Seen :=
  (tree.find? place).map tree.see

/-- Entries with the one at a location set. -/
def putEntry (place : Location) (entry : Entry) :
    List (Location × Entry) → List (Location × Entry)
  | [] => [(place, entry)]
  | (other, old) :: rest =>
    if other = place then (place, entry) :: rest else (other, old) :: putEntry place entry rest

/-- The tree with the entry at a location set. -/
def put (tree : Tree) (place : Location) (entry : Entry) : Tree :=
  { tree with entries := putEntry place entry tree.entries }

/-- The tree without the entry at a location. -/
def erase (tree : Tree) (place : Location) : Tree :=
  { tree with entries := tree.entries.filter (·.1 ≠ place) }

/-- The tree with the content under a number set. -/
def fill (tree : Tree) (number : Nat) (octets : List UInt8) : Tree :=
  { tree with contents := (number, octets) :: tree.contents.filter (·.1 ≠ number) }

/-- The tree without the content under a number. -/
def drain (tree : Tree) (number : Nat) : Tree :=
  { tree with contents := tree.contents.filter (·.1 ≠ number) }

/-- All numbers of files and contents. -/
def numbers (tree : Tree) : List Nat :=
  tree.entries.filterMap (fun entry => entry.2.number?) ++ tree.contents.map Prod.fst

/-- A number that the tree does not have. -/
def freshNumber (tree : Tree) : Nat :=
  tree.numbers.foldl max 0 + 1

/-- The tree with a file of its own at a location. -/
def putFile (tree : Tree) (place : Location) (octets : List UInt8) : Tree :=
  (tree.put place (.file tree.freshNumber)).fill tree.freshNumber octets

end Tree
end Files
end ClientForge
