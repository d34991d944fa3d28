import LunSyntax.Command
import LunSyntax.Schema.Syntax
import LunSyntax.Session
import LunSyntax.Workspace

/-!
# Running commands

What a command does, given what it can see: it prints, may write a file, and ends with a status.
An output file is made empty before anything is read.
-/

set_option autoImplicit false

namespace LunSyntax

/-- The outcome of a command: its status, what it printed, and the bytes of its output file. -/
structure RunResult where
  status : Nat := 0
  output : String := ""
  errors : String := ""
  workspace : Workspace

namespace Run

/-- Names of files which are sources. -/
def isSourceName (name : String) : Bool :=
  match (name.toList.reverse.span (· != '.')) with
  | (extension, _ :: _ :: _) => extension.reverse == ['l', 'u', 'n']
  | _ => false

/-- Paths are ordered step by step. -/
def stepsLe : Steps → Steps → Bool
  | [], _ => true
  | _ :: _, [] => false
  | a :: rest, b :: others => if a = b then stepsLe rest others else a < b

def decode (bytes : List UInt8) : Except String String :=
  match decodeUtf8 bytes with
  | .ok text => .ok text
  | .error _ => .error "stream did not contain valid UTF-8"

/-- The files to read for an input, by their paths from there. -/
def inputFiles (w : Workspace) (input : String) : Except String (List (Steps × List UInt8)) :=
  if input == "-" then .ok [([], w.input)]
  else
    match w.entry input with
    | .file bytes =>
      let name := ((resolvePath input).bind List.getLast?).getD ""
      .ok (if isSourceName name then [([], bytes)] else [])
    | .directory files =>
      .ok (files.filter fun (steps, _) => isSourceName (steps.getLast?.getD ""))
    | .fault fault =>
      .error ("IO error for operation on " ++ input ++ ": " ++ fault.message)

/-- The sources of an input, numbered in the order of their paths. -/
def readSources (w : Workspace) (input : String) : Except String SourceTree := do
  let files ← inputFiles w input
  let files := files.mergeSort fun a b => stepsLe a.1 b.1
  let sources ← files.mapM fun (steps, bytes) => do
    return ("/".intercalate steps, ← decode bytes)
  return .ofSources sources (some input)

def sortTexts (texts : List String) : List String := texts.mergeSort fun a b => a ≤ b

/-- The only source, with its number, for a command which takes no more. -/
def onlySource (sources : SourceTree) (command : String) : Except String (UInt16 × String) :=
  match sources.idsInOrder with
  | [(id, path)] =>
    match sources.content? path with
    | some source => .ok (id, source)
    | none => .error ("source `" ++ path ++ "` is missing from the tree")
  | _ =>
    let paths := sources.sources.map fun (path, _) => "`" ++ path ++ "`"
    .error ("Currently `" ++ command ++ "` only works with a single source, but found "
      ++ toString sources.sources.length ++ ": " ++ ", ".intercalate (sortTexts paths))

/-- Parse all sources, and count them if nothing is wrong. -/
def checkSources (sources : SourceTree) (colored : Bool) : Except String String :=
  let messages := sources.idsInOrder.flatMap fun (id, _) =>
    match sources.parse id colored with
    | .ok _ => []
    | .error messages => messages
  if messages.isEmpty then
    .ok (toString sources.idsInOrder.length ++ " file(s) parsed without errors\n")
  else .error (messagesText messages)

/-- The tables of a language as a document. -/
def languageDocument (l : Language) : Document :=
  .record [
    ("name", .str Language.name),
    ("version", .str Language.release),
    ("abi_version", .nat l.version),
    ("node_kinds", .ofList (fun kind : NodeKind =>
      .record [("id", .nat kind.id), ("name", .str kind.name), ("named", .bool kind.isNamed)])
      NodeKind.all),
    ("fields", .ofList (fun f : Field =>
      .record [("id", .nat f.id), ("name", .str f.text)]) Field.all)]

/-- What a command prints: to its output, and to the standard errors; or why it fails. -/
def perform (w : Workspace) (colored : Bool) : Command → Except String (String × String)
  | .lex input _ format => do
    let sources ← readSources w input
    let (_, source) ← onlySource sources "lex"
    match lexStrict source 0 with
    | .ok tokens => return (format.write (tokensToDocument tokens), "")
    | .error diagnostics => throw (messagesText (diagnostics.map Message.ofDiagnostic))
  | .parse input _ format => do
    let sources ← readSources w input
    let (id, _) ← onlySource sources "parse"
    match sources.parse id colored with
    | .ok file => return (format.write file.toDocument, "")
    | .error messages => throw (messagesText messages)
  | .tree input _ => do
    let sources ← readSources w input
    let (id, source) ← onlySource sources "tree"
    let tree := Tree.parse .current source { source := id }
    let errors := if tree.hasError then messagesText (tree.messages colored) ++ "\n" else ""
    return (tree.sexp 0 ++ "\n", errors)
  | .check input => do
    let sources ← readSources w input
    return (← checkSources sources colored, "")
  | .language format => return (format.write (languageDocument .current), "")
  | .schema kind =>
    let schema := match kind with
      | .file => fileSchema
      | .tokens => tokensSchema
    return (schema.toDocument.toPrettyJson, "")

/-- Errors as they are shown. -/
def errorText (colored : Bool) (text : String) : String :=
  if colored then text else stripAnsi text

/-- The outcome of faulty arguments. -/
def refuse (w : Workspace) (fault : UsageFault) : RunResult :=
  { status := 2, errors := fault.message, workspace := w }

/-- Run a command that writes to a file, which is empty by now, or to the standard output. -/
def finish (w : Workspace) (colored : Bool) (command : Command) (target : Option Steps) :
    RunResult :=
  match perform w colored command with
  | .error text => { status := 1, errors := errorText colored (text ++ "\n"), workspace := w }
  | .ok (text, errors) =>
    let errors := errorText colored errors
    match target with
    | none => { output := text, errors, workspace := w }
    | some steps => { errors, workspace := w.put steps text.toUTF8.toList }

/-- Run a command. -/
def run (invocation : Invocation) (w : Workspace) (colored : Bool) : RunResult :=
  match invocation.command.output? with
  | none => finish w colored invocation.command none
  | some path =>
    match w.create path with
    | .ok created => finish created colored invocation.command (resolvePath path)
    | .error fault => refuse w (.badPath "[OUTPUT]" path fault.message)

/-- Whether to use colors, where `auto` goes by what the terminal takes. -/
def usesColor (terminal : Bool) : ColorChoice → Bool
  | .auto => terminal
  | .always => true
  | .never => false

/-- Run the program with its arguments. -/
def program (args : List String) (environment : Option String) (terminal : Bool) (w : Workspace) :
    RunResult :=
  match Invocation.ofArgs args environment with
  | .ok invocation => run invocation w (usesColor terminal invocation.color)
  | .error fault => refuse w fault

end Run

end LunSyntax
