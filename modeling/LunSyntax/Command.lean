import LunSyntax.Document.Json
import LunSyntax.Document.Yaml
import LunSyntax.Text.Ansi

/-!
# Commands

What the program can be asked for on the command line, and how it is asked.

* `Invocation.ofArgs` reads arguments, with the format that the environment asks for;
* `UsageFault.message` says what is wrong with them.
-/

set_option autoImplicit false

namespace LunSyntax

inductive OutputFormat where
  | json
  | yaml
  deriving DecidableEq, Repr

def OutputFormat.write : OutputFormat → Document → String
  | json, d => d.toPrettyJson
  | yaml, d => d.toYaml

/-- When to use colors. -/
inductive ColorChoice where
  | auto
  | always
  | never
  deriving DecidableEq, Repr

/-- What to print the schema of. -/
inductive SchemaKind where
  | file
  | tokens
  deriving DecidableEq, Repr

/-- What to do.  Inputs and outputs are paths, or `-` for the standard streams. -/
inductive Command where
  | lex (input output : String) (format : OutputFormat)
  | parse (input output : String) (format : OutputFormat)
  | tree (input output : String)
  | check (input : String)
  | language (format : OutputFormat)
  | schema (kind : SchemaKind)
  deriving DecidableEq, Repr

/-- The path written to, if a command writes to one. -/
def Command.output? : Command → Option String
  | lex _ output _ | parse _ output _ | tree _ output => if output == "-" then none else some output
  | _ => none

/-- The path read from, if a command reads from one. -/
def Command.input? : Command → Option String
  | lex input _ _ | parse input _ _ | tree input _ | check input =>
    if input == "-" then none else some input
  | _ => none

/-- A command, and when to use colors. -/
structure Invocation where
  command : Command
  color : ColorChoice
  deriving DecidableEq, Repr

/-! ## Faults -/

/-- What is wrong with arguments. -/
inductive UsageFault where
  | noCommand
  | unknownCommand (name : String)
  | unexpected (argument : String)
  | noValue (option : String) (allowed : List String)
  | badValue (option value : String) (allowed : List String)
  | missing (option : String)
  | badPath (option value reason : String)
  deriving DecidableEq, Repr

/-- The values to choose from. -/
def allowedText (allowed : List String) : String :=
  "\n  [possible values: " ++ ", ".intercalate allowed ++ "]"

/-- The wording of a fault. -/
def UsageFault.message (fault : UsageFault) : String :=
  let cause := match fault with
    | noCommand =>
      "'lun' requires a subcommand but one was not provided\n"
        ++ "  [subcommands: lex, parse, tree, check, language, debug, shell-completion, help]"
    | unknownCommand name => "unrecognized subcommand '" ++ name ++ "'"
    | unexpected argument => "unexpected argument '" ++ argument ++ "' found"
    | noValue option allowed =>
      "a value is required for '" ++ option ++ "' but none was supplied" ++ allowedText allowed
    | badValue option value allowed =>
      "invalid value '" ++ value ++ "' for '" ++ option ++ "'" ++ allowedText allowed
    | missing option =>
      "the following required arguments were not provided:\n  " ++ option
    | badPath option value reason =>
      "invalid value '" ++ value ++ "' for '" ++ option ++ "': " ++ reason
  "error: " ++ cause ++ "\n\nFor more information, try '--help'.\n"

/-! ## Reading arguments -/

/-- Arguments sorted into words and the values of options. -/
structure CommandLine where
  words : List String := []
  color : Option String := none
  format : Option String := none
  schema : Option String := none

/-- The options which take a value, with its name and what it may be. -/
def colorOption : String × List String := ("--color <WHEN>", ["auto", "always", "never"])

@[inherit_doc colorOption]
def formatOption : String × List String := ("--format <FORMAT>", ["json", "yaml"])

@[inherit_doc colorOption]
def schemaOption : String × List String := ("--schema-type <SCHEMA_TYPE>", ["ast", "tokens"])

namespace CommandLine

/-- Keep the value of an option. -/
def set (line : CommandLine) (name value : String) : CommandLine :=
  match name with
  | "--color" => { line with color := some value }
  | "--format" => { line with format := some value }
  | _ => { line with schema := some value }

/-- How an option with a value is shown, and what the value may be. -/
def option? : String → Option (String × List String)
  | "--color" => some colorOption
  | "--format" => some formatOption
  | "--schema-type" => some schemaOption
  | _ => none

/-- Whether an argument only asks for more or fewer messages of the log. -/
def isLogFlag (argument : String) : Bool :=
  argument == "--verbose" || argument == "--quiet" ||
    match argument.toList with
    | '-' :: c :: rest => (c :: rest).all fun c => c == 'v' || c == 'q'
    | _ => false

/-- The name of an option and the value after its equals sign. -/
def splitOption (argument : String) : String × Option String :=
  let cs := argument.toList
  let name := String.ofList (cs.takeWhile (· != '='))
  match cs.dropWhile (· != '=') with
  | _ :: value => (name, some (String.ofList value))
  | [] => (name, none)

/-- Whether an argument is an option: it starts with a dash, and is more than that. -/
def isOption (argument : String) : Bool :=
  argument.toList.head? == some '-' && argument != "-"

/-- Sort arguments. -/
def scan (line : CommandLine) : List String → Except UsageFault CommandLine
  | [] => .ok line
  | argument :: rest =>
    if argument == "--" then .ok { line with words := line.words ++ rest }
    else if isLogFlag argument then line.scan rest
    else if !isOption argument then { line with words := line.words ++ [argument] }.scan rest
    else
      let (name, value) := splitOption argument
      match option? name, value, rest with
      | none, _, _ => .error (.unexpected argument)
      | some _, some value, rest => (line.set name value).scan rest
      | some _, none, value :: rest => (line.set name value).scan rest
      | some (shown, allowed), none, [] => .error (.noValue shown allowed)

/-- Read the value of an option. -/
def value {α : Type} (option : String × List String) (values : List α) (given : String) :
    Except UsageFault α :=
  match (option.2.zip values).lookup given with
  | some a => .ok a
  | none => .error (.badValue option.1 given option.2)

/-- The colors asked for. -/
def colorChoice (line : CommandLine) : Except UsageFault ColorChoice :=
  match line.color with
  | some given => value colorOption [.auto, .always, .never] given
  | none => .ok .auto

/-- The format asked for, by an option or else by the environment. -/
def outputFormat (line : CommandLine) (environment : Option String) :
    Except UsageFault OutputFormat :=
  match line.format, environment with
  | some given, _ | none, some given => value formatOption [.json, .yaml] given
  | none, none => .ok .yaml

/-- Fail if an option is given that a command does not have. -/
def without (line : CommandLine) (format schema : Bool) : Except UsageFault Unit :=
  if format && line.format.isSome then .error (.unexpected "--format")
  else if schema && line.schema.isSome then .error (.unexpected "--schema-type")
  else .ok ()

/-- The input and the output among the words after a command. -/
def inputOutput : List String → Except UsageFault (String × String)
  | [] => .ok ("-", "-")
  | [input] => .ok (input, "-")
  | [input, output] => .ok (input, output)
  | _ :: _ :: extra :: _ => .error (.unexpected extra)

/-- The command asked for. -/
def command (line : CommandLine) (environment : Option String) : Except UsageFault Command := do
  match line.words with
  | [] => throw .noCommand
  | "lex" :: words =>
    line.without false true
    let (input, output) ← inputOutput words
    return .lex input output (← line.outputFormat environment)
  | "parse" :: words =>
    line.without false true
    let (input, output) ← inputOutput words
    return .parse input output (← line.outputFormat environment)
  | "tree" :: words =>
    line.without true true
    let (input, output) ← inputOutput words
    return .tree input output
  | ["check"] =>
    line.without true true
    return .check "-"
  | ["check", input] =>
    line.without true true
    return .check input
  | "check" :: _ :: extra :: _ => throw (.unexpected extra)
  | ["language"] =>
    line.without false true
    return .language (← line.outputFormat environment)
  | "language" :: extra :: _ => throw (.unexpected extra)
  | ["debug", "json-schema"] =>
    line.without true false
    match line.schema with
    | some given => return .schema (← value schemaOption [.file, .tokens] given)
    | none => throw (.missing schemaOption.1)
  | "debug" :: "json-schema" :: extra :: _ => throw (.unexpected extra)
  | ["debug"] => throw .noCommand
  | "debug" :: name :: _ => throw (.unknownCommand name)
  | name :: _ => throw (.unknownCommand name)

end CommandLine

/-- Read arguments, with the format that the environment asks for. -/
def Invocation.ofArgs (args : List String) (environment : Option String) :
    Except UsageFault Invocation := do
  let line ← CommandLine.scan {} args
  let color ← line.colorChoice
  return ⟨← line.command environment, color⟩

end LunSyntax
