import ClientForge.CommandLine.Run
/-!
# The command

Reads the files that the arguments mention, runs the tool on them, writes what has changed and
prints. All decisions are those of the run; only this module touches the system. Links are followed
when files are read, so the run sees none.
-/

namespace ClientForge
namespace CommandLine

open Files (Location Route Seen Tree)

/-- The locations that arguments mention, and the directories above them. -/
def mentioned (place : Location) (arguments : List String) : List Location :=
  match readArguments arguments with
  | .error _ => []
  | .ok (given, others) =>
    (given.map Given.value ++ others).flatMap fun typed =>
      let target := (Route.parseAt place typed).location
      (List.range (target.length + 1)).map target.take

/-- The tree with what is at a location of the system. -/
def withSystemEntry (tree : Tree) (place : Location) : IO Tree := do
  match ← (IO.FS.realPath (place.shown "")).toBaseIO with
  | .error _ => return tree
  | .ok path =>
    if ← path.isDir then return tree.put place .directory
    else
      let octets := (← IO.FS.readBinFile path).data.toList
      return tree.putFile place octets

/-- The part of the system's files that arguments mention. -/
def snapshot (places : List Location) : IO Tree := do
  let mut tree : Tree := {}
  for place in places do
    if (tree.find? place).isNone then
      tree ← withSystemEntry tree place
  return tree

/-- A changed entry is brought to the system; a file is put beside its place first. -/
def bring (before after : Tree) (place : Location) : IO Unit := do
  if before.seen? place = after.seen? place then return
  match after.seen? place with
  | some .directory => IO.FS.createDirAll (place.shown "")
  | some (.file octets) =>
    let beside := (after.freshBeside place.dropLast (place.getLast?.getD "")).shown ""
    IO.FS.writeBinFile beside ⟨octets.toArray⟩
    IO.FS.rename beside (place.shown "")
  | _ => return

end CommandLine
end ClientForge

open ClientForge.CommandLine in
/-- The entry point of the command. -/
def main (arguments : List String) : IO UInt32 := do
  let here := ClientForge.Files.Route.location (.parse (toString (← IO.currentDir)))
  let before ← snapshot (mentioned here arguments)
  let outcome := run "" before here arguments
  for (place, _) in outcome.tree.entries do
    bring before outcome.tree place
  IO.print outcome.stdout
  IO.eprint outcome.stderr
  if let some failure := outcome.unhandled then
    IO.eprintln (failure.message "")
  return UInt32.ofNat outcome.exitCode
