import LunSyntax.Diagnostic
import LunSyntax.Text.Quoted

/-!
# Diagnostics in full

A diagnostic with all its fields on one line, for logs and tests: records in braces, texts in
quotes, and `None` or `Some(…)` for what may be missing.
-/

set_option autoImplicit false

namespace LunSyntax

def listedRecord (name : String) (fields : List (String × String)) : String :=
  name ++ " \x7b " ++ ", ".intercalate (fields.map fun (key, value) => key ++ ": " ++ value)
    ++ " \x7d"

def listedList (items : List String) : String := "[" ++ ", ".intercalate items ++ "]"

def listedOption : Option String → String
  | some text => "Some(" ++ text ++ ")"
  | none => "None"

/-- A reason in a listing. -/
def Reason.listing : Reason → String
  | simple text => "Simple(" ++ quoted text ++ ")"
  | expected who wanted found =>
    listedRecord "Expected" [("who", listedOption (who.map quoted)), ("expected", quoted wanted),
      ("found", quoted found)]
  | unexpected found => listedRecord "Unexpected" [("found", quoted found)]
  | notFound name space =>
    listedRecord "NotFound" [("name", quoted name), ("namespace", quoted space)]
  | bug details => listedRecord "Bug" [("details", listedOption (details.map quoted))]

/-- A diagnostic in full. -/
def Diagnostic.listing (d : Diagnostic) : String :=
  listedRecord "Error" [("kind", d.severity.name), ("span", listedOption (d.span.map Span.text)),
    ("reason", d.reason.listing), ("hints", listedList (d.hints.map quoted)),
    ("code", listedOption (d.code.map quoted)), ("source", d.stage.name)]

def diagnosticsListing (diagnostics : List Diagnostic) : String :=
  "Errors(" ++ listedList (diagnostics.map Diagnostic.listing) ++ ")"

end LunSyntax
