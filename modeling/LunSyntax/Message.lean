import LunSyntax.Ast.Document
import LunSyntax.Diagnostic
import LunSyntax.Source.Lines
import LunSyntax.Text.Visible

/-!
# Messages

A diagnostic as it is presented.  Next to its wording a `Message` may have a `Location` in lines
and columns and a `display`, which shows the source around it.

* `Message.text` is the display without blanks at the ends of lines, or a short form;
* `messagesText` is the text of several messages, one after the other.
-/

set_option autoImplicit false

namespace LunSyntax

structure Location where
  start : LineColumn
  stop : LineColumn
  deriving DecidableEq, Repr

/-- What is presented of a diagnostic. -/
structure Message where
  severity : Severity
  code : Option String
  reason : String
  hints : List String
  span : Option Span
  display : Option String
  location : Option Location
  deriving DecidableEq, Repr

/-- A message without location and display. -/
def Message.ofDiagnostic (d : Diagnostic) : Message :=
  ⟨d.severity, d.code, d.reason.message, d.hints, d.span, none, none⟩

/-- The message of a plain error. -/
def Message.ofText (text : String) : Message :=
  .ofDiagnostic (.ofReason (.simple text))

/-- A line without the blanks at its end. -/
def trimEnd (line : List Char) : List Char :=
  (line.reverse.dropWhile isBlank).reverse

/-- The lines of a text, which new-line chars separate. -/
def splitLines : List Char → List (List Char)
  | [] => [[]]
  | c :: rest =>
    match splitLines rest with
    | line :: more => if c = '\n' then [] :: line :: more else (c :: line) :: more
    | [] => [[c]]

/-- A text without the blanks at the ends of its lines. -/
def trimLines (text : String) : String :=
  "\n".intercalate ((splitLines text.toList).map fun line => String.ofList (trimEnd line))

/-- The text of a message. -/
def Message.text (m : Message) : String :=
  match m.display with
  | some display => trimLines display
  | none =>
    let code := match m.code with
      | some code => "[" ++ code ++ "] "
      | none => ""
    code ++ "Error: " ++ m.reason ++ "\n"
      ++ String.join (m.hints.map fun hint => "↳ Hint: " ++ hint ++ "\n")

/-- The text of messages, one after the other. -/
def messagesText (messages : List Message) : String :=
  String.join (messages.map Message.text)

/-! ## Written form -/

def LineColumn.toDocument (p : LineColumn) : Document :=
  .list [.nat p.line, .nat p.column]

def Location.toDocument (l : Location) : Document :=
  .record [("start", l.start.toDocument), ("end", l.stop.toDocument)]

/-- A message as a record. -/
def Message.toDocument (m : Message) : Document :=
  .record [
    ("kind", .str m.severity.name),
    ("code", .ofOption .str m.code),
    ("reason", .str m.reason),
    ("hints", .ofList .str m.hints),
    ("span", .ofOption Span.toDocument m.span),
    ("display", .ofOption .str m.display),
    ("location", .ofOption Location.toDocument m.location)]

def messagesToDocument (messages : List Message) : Document :=
  .record [("inner", .ofList Message.toDocument messages)]

end LunSyntax
