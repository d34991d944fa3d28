import LunSyntax.Session

/-!
# Parsing for hosts of bytes

A host may hold no parser, hand over no source, or bytes which are no text.  It gets an answer in
any case: the tree as a text, and messages.

Sources end at the first zero byte, as strings do which are known by where they start.  So do texts
which are handed over to a host.
-/

set_option autoImplicit false

namespace LunSyntax

/-- A message to a host.  Hints are joined, and spans are of the only source. -/
structure HostMessage where
  code : Option String
  reason : String
  hint : Option String
  span : Option Extent
  display : Option String
  location : Option Location
  deriving DecidableEq, Repr

/-- The answer to a host. -/
structure HostAnswer where
  output : String
  messages : List HostMessage
  deriving DecidableEq, Repr

namespace Host

/-- A text for a host, for which a zero is the end.  A text which has a zero in it is given up. -/
def handOver (text : String) : String :=
  if text.toList.contains '\x00' then "" else text

/-- A message for a host. -/
def ofMessage (m : Message) : HostMessage where
  code := m.code.map handOver
  reason := handOver m.reason
  hint := if m.hints.isEmpty then none else some (handOver ("\n".intercalate m.hints))
  span := m.span.map fun span => ⟨span.start, span.stop⟩
  display := m.display.map handOver
  location := m.location

def answer (output : String) (messages : List Message) : HostAnswer :=
  ⟨handOver output, messages.map ofMessage⟩

/-- An answer without a tree. -/
def refusal (reason : String) : HostAnswer :=
  answer "" [.ofText reason]

/-- The parser of a new host, whose messages have no color. -/
def newParser : Session := Session.withoutColor {}

/-- Set the language of a parser, if there are both, and tell whether it is set. -/
def setLanguage (parser : Option Session) (language : Option Language) : Option Session × Bool :=
  match parser, language with
  | some parser, some language =>
    match parser.setLanguage language with
    | .ok parser => (some parser, true)
    | .error _ => (some parser, false)
  | parser, _ => (parser, false)

/-- The text of bytes up to the first zero. -/
def textOf (bytes : List UInt8) : String :=
  decodeUtf8Lossy (bytes.takeWhile (· != 0))

/-- Parse bytes, if there are a parser and a source.  Displays are drawn with colors where the
terminal has them. -/
def parseOn (colored : Bool) (parser : Option Session) (source : Option (List UInt8)) :
    HostAnswer :=
  match parser, source with
  | none, _ => refusal "parser is null"
  | some _, none => refusal "source is null"
  | some parser, some bytes =>
    match parser.parse? (textOf bytes) with
    | some tree => answer (tree.sexp 0) (tree.messages colored)
    | none => refusal "no language set on the parser"

/-- Parse bytes on a terminal without colors. -/
def parse (parser : Option Session) (source : Option (List UInt8)) : HostAnswer :=
  parseOn false parser source

end Host

end LunSyntax
