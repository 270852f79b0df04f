import ScoringTree.Command.Run

/-!
# ScoringTree.Main

The command line over the files of the machine.
-/

namespace ScoringTree

/-- The result, or none if the system refuses. -/
def attempt? {α : Type} (action : IO α) : IO (Option α) := do
  try return some (← action)
  catch _ => return none

/-- Whether the system lets the action happen. -/
def succeeds (action : IO Unit) : IO Bool := return (← attempt? action).isSome

def kindOnDisk? (path : String) : IO (Option FileKind) := do
  if path.isEmpty then return none
  match ← attempt? (IO.FS.realPath path) with
  | none => return none
  | some place =>
    if ← place.isDir then return some .folder
    if (Path.segments path).getLast? == some "" then return none
    return if ← place.pathExists then some .file else none

/-- All files at or below a path. -/
partial def filesOnDisk (path : String) : IO (List String) := do
  match ← kindOnDisk? path with
  | none => return []
  | some .file => return [path]
  | some .folder =>
    match ← attempt? (do (← IO.FS.realPath path).readDir) with
    | none => return []
    | some entries =>
      let found ← entries.toList.mapM fun entry => filesOnDisk (Path.join path entry.fileName)
      return found.flatten

instance : FileStore IO where
  kind? := kindOnDisk?
  read? path := attempt? (IO.FS.readFile path)
  filesAt := filesOnDisk
  placeName? path := do
    if (← kindOnDisk? path).isNone then return none
    return some (Path.fileName? (← IO.FS.realPath path).toString)
  makeFolders path := do
    if path.isEmpty then return true
    discard (succeeds (IO.FS.createDirAll path))
    return (← kindOnDisk? path) == some .folder
  write path text := succeeds (IO.FS.writeFile path text)

end ScoringTree

open ScoringTree

/-- Runs a command. The exit code is 2 for a wrong command line and 1 for a failure. -/
def main (arguments : List String) : IO UInt32 := do
  match Usage.read arguments with
  | .wrong =>
    IO.eprintln "usage: treeforge [-c PATH] [-v] init|validate|compile|score ..."
    return 2
  | .help =>
    IO.println "usage: treeforge [-c PATH] [-v] init|validate|compile|score ..."
    return 0
  | .run invocation =>
    let report ← Invocation.run invocation
    for line in report.lines do IO.println line
    match report.failure with
    | none => return 0
    | some messages =>
      IO.eprintln ("Error: " ++ String.intercalate "\n  " messages)
      return 1
