import LunSyntax.Source.Path
import LunSyntax.Text.Utf8

/-!
# Files of a command

What a command can see: files with their bytes, directories, and its standard input.  Paths are
relative to where the command runs, and may lead up and down again.

* `Workspace.entry` is what is at a path;
* `Workspace.create` makes an empty file, as opening a file for writing does.
-/

set_option autoImplicit false

namespace LunSyntax

/-- Why a file cannot be opened. -/
inductive FileFault where
  | notFound
  | notDirectory
  | isDirectory
  deriving DecidableEq, Repr

def FileFault.message : FileFault → String
  | notFound => "No such file or directory (os error 2)"
  | notDirectory => "Not a directory (os error 20)"
  | isDirectory => "Is a directory (os error 21)"

abbrev Steps := List String

/-- Files by the steps to them, directories which may be empty, and the standard input. -/
structure Workspace where
  files : List (Steps × List UInt8)
  directories : List Steps
  input : List UInt8

/-- Follow parts of a path after some steps, last first.  There is nothing above the start. -/
def followParts : Steps → List (List Char) → Option Steps
  | done, [] => some done.reverse
  | done, part :: rest =>
    if !isStep part then followParts done rest
    else if part == ['.', '.'] then
      match done with
      | [] => none
      | _ :: done => followParts done rest
    else followParts (String.ofList part :: done) rest

/-- The steps of a path. -/
def resolvePath (path : String) : Option Steps :=
  match pathSteps path with
  | ['/'] :: rest => (followParts [] rest).map ("/" :: ·)
  | parts => followParts [] parts

/-- What is left of some steps after others, if they start with those. -/
def stepsAfter? : Steps → Steps → Option Steps
  | [], steps => some steps
  | a :: rest, b :: steps => if a = b then stepsAfter? rest steps else none
  | _ :: _, [] => none

/-- What is at a path. -/
inductive Entry where
  | file (bytes : List UInt8)
  | directory (files : List (Steps × List UInt8))
  | fault (fault : FileFault)

namespace Workspace

/-- Files which are all there is. -/
def ofFiles (files : List (String × List UInt8)) (input : List UInt8) : Workspace where
  files := files.filterMap fun (path, bytes) => (resolvePath path).map (·, bytes)
  directories := []
  input := input

/-- The files below a directory, by the steps from there. -/
def filesBelow (w : Workspace) (steps : Steps) : List (Steps × List UInt8) :=
  w.files.filterMap fun (file, bytes) => (stepsAfter? steps file).map (·, bytes)

/-- Whether steps lead through a file. -/
def passesFile (w : Workspace) (steps : Steps) : Bool :=
  w.files.any fun (file, _) => (stepsAfter? file steps).isSome

def hasDirectory (w : Workspace) (steps : Steps) : Bool :=
  steps.isEmpty || w.directories.contains steps || !(w.filesBelow steps).isEmpty

/-- What is at some steps. -/
def entryAt (w : Workspace) (steps : Steps) : Entry :=
  match w.files.lookup steps with
  | some bytes => .file bytes
  | none =>
    if w.hasDirectory steps then .directory (w.filesBelow steps)
    else if w.passesFile steps then .fault .notDirectory
    else .fault .notFound

/-- What is at a path.  With a slash at its end, it has to be a directory. -/
def entry (w : Workspace) (path : String) : Entry :=
  if path.isEmpty then .fault .notFound
  else
    match resolvePath path with
    | none => .fault .notFound
    | some steps =>
      match w.entryAt steps with
      | .file bytes =>
        if path.toList.getLast? == some '/' then .fault .notDirectory else .file bytes
      | entry => entry

def put (w : Workspace) (steps : Steps) (bytes : List UInt8) : Workspace :=
  { w with files := (steps, bytes) :: w.files.filter (·.1 != steps) }

/-- Make a file empty, or make an empty file in a directory. -/
def create (w : Workspace) (path : String) : Except FileFault Workspace :=
  match w.entry path, resolvePath path with
  | .file _, some steps => .ok (w.put steps [])
  | .directory _, _ => .error .isDirectory
  | .fault .notFound, some steps =>
    if w.hasDirectory steps.dropLast && !path.isEmpty then .ok (w.put steps [])
    else .error .notFound
  | .fault fault, _ => .error fault
  | .file _, none => .error .notFound

end Workspace

end LunSyntax
