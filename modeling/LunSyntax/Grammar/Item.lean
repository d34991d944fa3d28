import LunSyntax.Diagnostic
import LunSyntax.Grammar.Checked
import LunSyntax.Grammar.Expression
import LunSyntax.Token.Lexer

/-!
# The grammar of source files

A source is a list of definitions `name : type? (: or =) value`, where `::` is one token.  What is
no definition is skipped up to the next one, or to the end, and reported.

* `Complaint.toDiagnostic` words what the parser complains about;
* `parseTokens` parses tokens, `parse` a text, and `parseStrict` accepts only a text without
  diagnostics.
-/

set_option autoImplicit false

namespace LunSyntax

namespace Grammar

open LunSyntax.Combinators

variable {P : Type → Type} [Combinators P]

/-- What separates the name of a definition from its value: the type, if any, and whether the
global is mutable. -/
def header : P (Option TypeExpr × Bool) :=
  choice [
    (fun _ => (none, false)) <$> digraph .pathSep,
    do
      control ':'
      let type ← optional typeExpr
      let mutable ← either ((fun _ => false) <$> control ':') ((fun _ => true) <$> control '=')
      return (type, mutable)]

/-- A definition. -/
def definition : P GlobalDef :=
  check (fun d _ =>
      (d, if !d.semicolon && d.value.kind.needsSemicolon then [missingSemicolon d.value] else []))
    do
      let name ← ident
      let (type, mutable) ← header
      let value ← expr
      let semicolon ← optional (control ';')
      return ⟨name, type, mutable, value, semicolon.isSome⟩

/-- A definition, after skipping what is none. -/
def item : P Item :=
  recoverSkipping (withSpan Item.mk definition)

/-- The message about tokens after the last definition. -/
def trailingMessage : TokenKind → String
  | .ident name => "unfinished definition of `" ++ name ++ "`"
  | kind => "expected a definition, but found " ++ kind.label

/-- Tokens after the last definition, which do not make up one. -/
def trailing : P Unit :=
  check (fun first span => ((), [(span, trailingMessage first)])) do
    let first ← any
    let _ ← many any
    return first

/-- A whole input. -/
def sourceFile : P (List Item) := do
  let items ← many item
  let _ ← optional trailing
  finish
  return items

end Grammar

/-! ## Wording -/

/-- Insert into a sorted list without repetition. -/
def insertSorted (s : String) : List String → List String
  | [] => [s]
  | t :: rest => if s = t then t :: rest else if s < t then s :: t :: rest
    else t :: insertSorted s rest

/-- Strings in ascending order, each once. -/
def sortUnique (strings : List String) : List String :=
  strings.foldr insertSorted []

/-- A token, or the end, in a message. -/
def tokenLabel : Option TokenKind → String
  | some kind => kind.label
  | none => "end of input"

/-- Choices joined by commas, and the last one by `or`. -/
def listChoices : List String → String
  | [] => ""
  | [a] => a
  | [a, b] => a ++ " or " ++ b
  | choices =>
    "one of " ++ ", ".intercalate choices.dropLast ++ " or " ++ choices.getLast?.getD ""

/-- The reason of a complaint.  With nothing or too much to choose from, only what was found is
named. -/
def Complaint.reason (c : Complaint) : Reason :=
  match c.cause with
  | .custom message => .simple message
  | .unclosed delimiter => .simple ("unclosed delimiter `" ++ delimiter.text ++ "`")
  | .unexpected =>
    let choices := sortUnique (c.expected.map tokenLabel)
    if choices.isEmpty || 10 < choices.length then .simple ("unexpected " ++ tokenLabel c.found)
    else
      match c.found with
      | some found => .expected none (listChoices choices) found.label
      | none =>
        .simple ("Expected " ++ listChoices choices
          ++ ", but didn't find anything before the end.")

/-- The span of a complaint.  What is missing at the end is shown at the last char before it. -/
def Complaint.shownSpan (c : Complaint) : Span :=
  if c.cause = .unexpected ∧ c.found = none ∧ 0 < c.span.start ∧ 0 < c.span.stop then
    { c.span with start := c.span.start - 1, stop := c.span.stop - 1 }
  else c.span

def Complaint.toDiagnostic (c : Complaint) : Diagnostic :=
  .located c.reason c.shownSpan grammarCode .parser

/-! ## Parsing -/

/-- The offset after the last token. -/
def tokensEnd (tokens : List Token) : Nat :=
  match tokens.getLast? with
  | some token => token.extent.stop
  | none => 0

/-- Whether an offset is left for the end of the input, after the last token. -/
def hasEnd (tokens : List Token) : Bool := tokensEnd tokens < maxOffset

/-- The input of the grammar: all tokens but the comments. -/
def tokenStream (tokens : List Token) (id : UInt16) : Cursor :=
  let stop := tokensEnd tokens
  Cursor.start
    ((tokens.filter fun t => !t.kind.isComment).map fun t => ⟨t.kind, t.extent.inSource id⟩)
    ⟨id, stop, stop + 1⟩

/-- The file which was read, and the diagnostics of what was complained about. -/
def Outcome.fileOf (tokens : List Token) (id : UInt16) :
    Outcome (List Item) → Option SourceFile × List Diagnostic
  | ⟨reported, .ok items _ _⟩ =>
    (some ⟨items, ⟨id, 0, tokensEnd tokens⟩⟩, reported.map Complaint.toDiagnostic)
  | ⟨reported, .fail complaint⟩ => (none, (reported ++ [complaint]).map Complaint.toDiagnostic)

/-- The definitions of some tokens as a file, unless the parse fails, and a diagnostic for each
complaint. -/
def parseTokens (tokens : List Token) (id : UInt16) : Option SourceFile × List Diagnostic :=
  (Grammar.sourceFile (P := Parser) (tokenStream tokens id)).fileOf tokens id

/-- Parse tokens, unless the parse is cut short: because there is no offset for the end of the
input, or by what a `Checked` parser finds. -/
def parseTokens? (tokens : List Token) (id : UInt16) :
    Option (Option SourceFile × List Diagnostic) :=
  if hasEnd tokens then
    (Grammar.sourceFile (P := Checked) (tokenStream tokens id)).map (Outcome.fileOf tokens id)
  else none

/-- What a text is read as. -/
structure Parsed where
  tokens : List Token
  file : Option SourceFile
  diagnostics : List Diagnostic

/-- Parse a text.  The file spans all of it, trailing blanks included. -/
def parse (source : String) (id : UInt16) : Parsed :=
  let (tokens, lexical) := lex source id
  let (file, grammatical) := parseTokens tokens id
  ⟨tokens, file.map fun f => { f with span := ⟨id, 0, source.length⟩ }, lexical ++ grammatical⟩

/-- Parse a text without any fault. -/
def parseStrict (source : String) (id : UInt16) : Except (List Diagnostic) SourceFile :=
  match parse source id with
  | ⟨_, some file, []⟩ => .ok file
  | ⟨_, none, []⟩ => .error [.ofAssertion "parser produced neither an AST nor errors"]
  | ⟨_, _, diagnostics⟩ => .error diagnostics

end LunSyntax
