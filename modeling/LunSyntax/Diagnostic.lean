import LunSyntax.Span

/-!
# Diagnostics

What went wrong, and where.  A `Diagnostic` has a reason and optionally a span, a code, hints and
the stage that found it; `Reason.message` is its wording.
-/

set_option autoImplicit false

namespace LunSyntax

inductive Severity where
  | error | warning | lint
  deriving DecidableEq, Repr

def Severity.name : Severity → String
  | error => "Error"
  | warning => "Warning"
  | lint => "Lint"

def Severity.ofName? (name : String) : Option Severity :=
  [error, warning, lint].find? (·.name == name)

/-- What found a diagnostic. -/
inductive Stage where
  | lexer | parser | language | unknown
  deriving DecidableEq, Repr

/-- The name of a stage. -/
def Stage.name : Stage → String
  | lexer => "Lexer"
  | parser => "Parser"
  | language => "Language"
  | unknown => "Unknown"

def Stage.ofName? (name : String) : Option Stage :=
  [lexer, parser, language, unknown].find? (·.name == name)

/-- The code of errors in the tokens of a source. -/
def lexicalCode : String := "E0001"

/-- The code of errors in the grammar of a source. -/
def grammarCode : String := "E0002"

/-- The code of errors in the version of a language. -/
def versionCode : String := "E0003"

/-- What went wrong. -/
inductive Reason where
  | simple (text : String)
  | expected (who : Option String) (wanted found : String)
  | unexpected (found : String)
  | notFound (name space : String)
  | bug (details : Option String)
  deriving DecidableEq, Repr

/-- The wording of a reason. -/
def Reason.message : Reason → String
  | simple text => text
  | expected who wanted found =>
    (match who with
      | some who => who ++ " "
      | none => "")
      ++ "expected " ++ wanted ++ ", but found " ++ found
  | unexpected found => "unexpected " ++ found
  | notFound name space => space ++ " `" ++ name ++ "` not found"
  | bug details =>
    "internal parser error" ++
      match details with
      | some details => "; " ++ details
      | none => ""

/-- A problem of a source. -/
structure Diagnostic where
  severity : Severity
  span : Option Span
  reason : Reason
  hints : List String
  code : Option String
  stage : Stage
  deriving DecidableEq, Repr

namespace Diagnostic

/-- An error of which only the reason is known. -/
def ofReason (reason : Reason) : Diagnostic :=
  ⟨.error, none, reason, [], none, .unknown⟩

/-- An error at a span, with a code, found by a stage. -/
def located (reason : Reason) (span : Span) (code : String) (stage : Stage) : Diagnostic :=
  ⟨.error, some span, reason, [], some code, stage⟩

/-- A fault of the program itself. -/
def ofAssertion (details : String) : Diagnostic :=
  ofReason (.bug (some details))

def addHint (d : Diagnostic) (hint : String) : Diagnostic :=
  { d with hints := d.hints ++ [hint] }

def withSpan (d : Diagnostic) (span : Option Span) : Diagnostic := { d with span }

def withCode (d : Diagnostic) (code : String) : Diagnostic := { d with code := some code }

def withStage (d : Diagnostic) (stage : Stage) : Diagnostic := { d with stage }

end Diagnostic

end LunSyntax
