/-
  The program.

  Reads a snapshot of a project from the standard input, runs the command of its arguments on it,
  writes the files that have changed, and says what there is to say.
-/
import RouteAtlas.Project.Snapshot

namespace RouteAtlas

open Project

/-- The lines of a stream to its end, joined. -/
partial def wholeText (stream : IO.FS.Stream) (before : String) : IO String := do
  let line ← stream.getLine
  if line.isEmpty then return before
  wholeText stream (before ++ line)

/-- Writes a file, with the directories around it. -/
def writeOut (place : Source.Location) (text : String) : IO Unit := do
  IO.FS.createDirAll place.parent.text
  IO.FS.writeFile place.text text

/-- Runs the command of the arguments on the snapshot in a text. -/
def runOn (text : List Char) (arguments : List String) : IO UInt32 := do
  match Json.read text with
  | .error fault =>
    IO.eprintln ("Error: not a snapshot: " ++ fault.message text)
    return 2
  | .ok value =>
    let snapshot := Snapshot.ofJson value
    let (outcome, world) := snapshot.run arguments
    for (place, changed) in changedFiles snapshot.tree world.tree do
      writeOut place changed
    IO.print outcome.output
    IO.eprint outcome.errors
    return outcome.exitCode.toUInt32

end RouteAtlas

/-- Runs the command line. -/
def main (arguments : List String) : IO UInt32 := do
  RouteAtlas.runOn (← RouteAtlas.wholeText (← IO.getStdin) "").toList arguments
