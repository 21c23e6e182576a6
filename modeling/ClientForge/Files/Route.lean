import ClientForge.Files.Tree
/-!
# Routes

A path as it is written. Its names are followed one by one from the root: two dots lead up again
from where the names before them have led, and a link is left for the path that it stands for. So
every place on the way has to be a directory, even one that is left again at once, and only so many
links are followed.

A route can also be resolved without looking at what is there, except for links. Places that do not
exist are then passed all the same. What a route stands for has no links on it, unless a link leads
back to itself.
-/

namespace ClientForge
namespace Files

/-- The names of a path in the order in which they are followed. -/
abbrev Route := List String

namespace Route

/-- The route that a text stands for: empty names and single dots say nothing. -/
def parse (text : String) : Route :=
  ((Text.splitOn '/' text.toList).map String.ofList).filter fun name => name ≠ "" ∧ name ≠ "."

/-- The route that a text stands for, seen from a place. -/
def parseAt (place : Location) (text : String) : Route :=
  (if text.toList.head? = some '/' then [] else place) ++ parse text

/-- Where the names of a route end if there are no links. -/
def location (route : Route) : Location :=
  route.foldl Location.enter []

/-- Whether a name stands for an entry of a directory, and not for the directory or its parent. -/
def isEntryName (name : String) : Bool :=
  name ≠ "" ∧ name ≠ "." ∧ name ≠ ".."

end Route

/-- How many links are followed on one route. -/
def linkLimit : Nat := 40

namespace Tree

/-- The place that names lead to from a place; `jump` goes on where a link stands. Only the last
name may stand for nothing. -/
def follow (tree : Tree) (jump : Location → Route → Except Refusal Location) :
    Location → Route → Except Refusal Location
  | here, [] => .ok here
  | here, name :: rest =>
    match tree.find? here with
    | none => .error .missing
    | some .directory =>
      if name = "" ∨ name = "." then follow tree jump here rest
      else if name = ".." then follow tree jump here.dropLast rest
      else
        match tree.find? (here ++ [name]) with
        | some (.link target) => jump (target.start here) (target.names ++ rest)
        | _ => follow tree jump (here ++ [name]) rest
    | some _ => .error .notDirectory

/-- The place that names lead to from a place, with so many links on the way at most. -/
def walkFrom (tree : Tree) : Nat → Location → Route → Except Refusal Location
  | 0 => tree.follow fun _ _ => .error .manyLinks
  | links + 1 => tree.follow (walkFrom tree links)

/-- The place that a route leads to. -/
def walk (tree : Tree) (route : Route) : Except Refusal Location :=
  tree.walkFrom linkLimit [] route

/-- Whether a route leads to something. -/
def leads (tree : Tree) (route : Route) : Bool :=
  match tree.walk route with
  | .ok place => (tree.find? place).isSome
  | .error _ => false

/-- The directory that a route leads to. -/
def directoryAt (tree : Tree) (route : Route) : Except Refusal Location :=
  match tree.walk route with
  | .error refusal => .error refusal
  | .ok place =>
    match tree.find? place with
    | none => .error .missing
    | some .directory => .ok place
    | some _ => .error .notDirectory

/-- Whether a route leads to a directory. -/
def isDirectory (tree : Tree) (route : Route) : Bool :=
  match tree.directoryAt route with
  | .ok _ => true
  | .error _ => false

/-- The content of the file that a route leads to. -/
def read (tree : Tree) (route : Route) : Except Fault (List UInt8) :=
  match tree.walk route with
  | .error refusal => .error ⟨refusal, route⟩
  | .ok place =>
    match tree.find? place with
    | none => .error ⟨.missing, route⟩
    | some (.file number) => .ok (tree.content number)
    | some _ => .error ⟨.isDirectory, route⟩

/-- Where names lead from a place if nothing but links counts; `jump` resolves the path of a link.
A link that is being resolved already leads back to itself: then the names from there on are left
as they are. -/
def resolveWith (tree : Tree) (passed : List Location)
    (jump : List Location → Location → Route → Except Route Location) :
    Location → Route → Except Route Location
  | here, [] => .ok here
  | here, name :: rest =>
    if name = "" ∨ name = "." then resolveWith tree passed jump here rest
    else if name = ".." then resolveWith tree passed jump here.dropLast rest
    else
      match tree.find? (here ++ [name]) with
      | some (.link target) =>
        if here ++ [name] ∈ passed then .error (here ++ name :: rest)
        else
          match jump ((here ++ [name]) :: passed) (target.start here) target.names with
          | .ok place => resolveWith tree passed jump place rest
          | .error names => .error (names ++ rest)
      | _ => resolveWith tree passed jump (here ++ [name]) rest

/-- Where names lead from a place, with links inside links down to a depth. -/
def resolveFrom (tree : Tree) : Nat → List Location → Location → Route → Except Route Location
  | 0, passed => tree.resolveWith passed fun _ here names => .error (here ++ names)
  | depth + 1, passed => tree.resolveWith passed (resolveFrom tree depth)

/-- The location that a route stands for, or what is left of the route at a link that leads back to
itself. Links that differ are nested no deeper than there are entries. -/
def resolve (tree : Tree) (route : Route) : Except Route Location :=
  tree.resolveFrom tree.entries.length [] [] route

/-- The location that a route stands for; what cannot be resolved is taken as a text. -/
def locate (tree : Tree) (route : Route) : Location :=
  match tree.resolve route with
  | .ok place => place
  | .error names => Route.location names

/-- The location that a route stands for, unless there are too many links still on the way to it. -/
def locate? (tree : Tree) (route : Route) : Option Location :=
  match tree.walk (tree.locate route) with
  | .error .manyLinks => none
  | _ => some (tree.locate route)

/-! ## Directories on the way -/

/-- A new directory. -/
def makeDirectory (tree : Tree) (route : Route) : Except Refusal Tree :=
  match route.getLast? with
  | none => .error .fileExists
  | some name =>
    match tree.directoryAt route.dropLast with
    | .error refusal => .error refusal
    | .ok place =>
      if Route.isEntryName name && (tree.find? (place ++ [name])).isNone then
        .ok (tree.put (place ++ [name]) .directory)
      else .error .fileExists

/-- A directory that could not be made may be there already. -/
def acceptDirectory (tree : Tree) (route : Route) (refusal : Refusal) : Except Fault Unit :=
  if tree.isDirectory route then .ok () else .error ⟨refusal, route⟩

/-- A directory, if there is none yet, in one that exists. -/
def haveDirectory (tree : Tree) (route : Route) : Tree × Except Fault Unit :=
  match tree.makeDirectory route with
  | .ok next => (next, .ok ())
  | .error refusal => (tree, tree.acceptDirectory route refusal)

/-- The directory that names lead to, the last name first. If something is missing on the way to it,
the one above is seen to before. -/
def haveDirectories (tree : Tree) : List String → Tree × Except Fault Unit
  | [] => (tree, .ok ())
  | name :: up =>
    match tree.makeDirectory (name :: up).reverse with
    | .ok next => (next, .ok ())
    | .error .missing =>
      match haveDirectories tree up with
      | (made, .error fault) => (made, .error fault)
      | (made, .ok ()) => made.haveDirectory (name :: up).reverse
    | .error refusal => (tree, tree.acceptDirectory (name :: up).reverse refusal)

/-- The directories on the way along a route, as far as they do not exist yet. -/
def makeWay (tree : Tree) (route : Route) : Tree × Except Fault Unit :=
  tree.haveDirectories route.reverse.tail

/-! ## Files at the end -/

/-- A hidden name next to a target, with a number that makes it new. -/
def hiddenName (name : String) (number : Nat) : String :=
  "." ++ name ++ "." ++ toString number ++ ".tmp"

/-- A location in a directory with a hidden name that the tree does not have. -/
def freshBeside (tree : Tree) (place : Location) (name : String) : Location :=
  let free := (List.range (tree.entries.length + 1)).find? fun number =>
    (tree.find? (place ++ [hiddenName name number])).isNone
  place ++ [hiddenName name (free.getD 0)]

/-- A file takes the place at the end of a route, where another file or a link may have been. -/
def moveTo (tree : Tree) (source : Location) (entry : Entry) (route : Route) :
    Except Refusal Tree :=
  match route.getLast? with
  | none => .error .isDirectory
  | some name =>
    match tree.directoryAt route.dropLast with
    | .error refusal => .error refusal
    | .ok place =>
      if !Route.isEntryName name then .error .busy
      else if tree.find? (place ++ [name]) = some .directory then .error .isDirectory
      else .ok ((tree.erase source).put (place ++ [name]) entry)

/-- The file that a route leads to, made empty, with its number. A file that is missing is made. -/
def openFile (tree : Tree) (route : Route) : Except Refusal (Tree × Nat) :=
  match tree.walk route with
  | .error refusal => .error refusal
  | .ok place =>
    match tree.find? place with
    | none => .ok (tree.putFile place [], tree.freshNumber)
    | some (.file number) => .ok (tree.fill number [], number)
    | some _ => .error .isDirectory

end Tree
end Files
end ClientForge
