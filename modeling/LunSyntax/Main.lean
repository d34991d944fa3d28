import LunSyntax.Command.Run

/-!
# The program

Reads what a command needs, runs it, and writes what it leaves behind.
-/

set_option autoImplicit false

namespace LunSyntax

/-- All bytes of a stream. -/
partial def readAll (stream : IO.FS.Stream) (before : List UInt8) : IO (List UInt8) := do
  let chunk ← stream.read 65536
  if chunk.isEmpty then return before
  else readAll stream (before ++ chunk.toList)

/-- The files of a directory with their bytes, by paths that start with it. -/
def readDirectory (path : String) : IO (List (String × List UInt8)) := do
  let root ← IO.FS.realPath path
  let mut files := []
  for file in ← root.walkDir do
    unless ← file.isDir do
      let relative := (file.toString.drop root.toString.length).toString
      files := (path ++ "/" ++ relative, (← IO.FS.readBinFile file).toList) :: files
  return files

/-- What is at a path, as far as a command can see it. -/
def readInput (path : String) : IO (List (String × List UInt8)) := do
  try return [(path, (← IO.FS.readBinFile path).toList)]
  catch _ =>
    try readDirectory path
    catch _ => return []

/-- The directory of an output which can be written. -/
def outputDirectory (path : String) : IO (List Steps) := do
  try
    let _ ← IO.FS.Handle.mk path .append
    return ((resolvePath path).map List.dropLast).toList
  catch _ => return []

/-- All that a command can see. -/
def observe (command : Command) : IO Workspace := do
  let files ← match command.input? with
    | some path => readInput path
    | none => pure []
  let readsInput := match command with
    | .language _ | .schema _ => false
    | _ => command.input?.isNone
  let input ← if readsInput then readAll (← IO.getStdin) [] else pure []
  let directories ← match command.output? with
    | some path => outputDirectory path
    | none => pure []
  let workspace := Workspace.ofFiles files input
  return { workspace with directories }

/-- Whether errors go to a terminal that takes colors. -/
def terminalTakesColor : IO Bool := do
  let refused := (← IO.getEnv "NO_COLOR").any (!·.isEmpty)
  return !refused && (← (← IO.getStderr).isTty)

/-- Print the outcome of a command, and write its output file. -/
def leave (output : Option String) (result : RunResult) : IO UInt32 := do
  (← IO.getStdout).putStr result.output
  (← IO.getStderr).putStr result.errors
  match output with
  | some path =>
    match result.workspace.entry path with
    | .file bytes => IO.FS.writeBinFile path ⟨bytes.toArray⟩
    | _ => pure ()
  | none => pure ()
  return result.status.toUInt32

end LunSyntax

open LunSyntax in
/-- Run the program with its arguments. -/
def main (args : List String) : IO UInt32 := do
  match Invocation.ofArgs args (← IO.getEnv "LUN_FORMAT") with
  | .error fault => leave none (Run.refuse ⟨[], [], []⟩ fault)
  | .ok invocation =>
    let workspace ← observe invocation.command
    let colored := Run.usesColor (← terminalTakesColor) invocation.color
    leave invocation.command.output? (Run.run invocation workspace colored)
