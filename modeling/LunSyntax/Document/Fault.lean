import LunSyntax.Span
import LunSyntax.Text.Decimal
import LunSyntax.Text.Quoted

/-!
# Faults of written documents

Why a JSON text is no document of the kind wanted: it is no JSON at all, or it is JSON of another
shape.  `ReadCause.message` has the wording, and `ReadFault.message` adds the place.
-/

set_option autoImplicit false

namespace LunSyntax

/-- A place in a text: lines count from one, and columns are the bytes of the line before it. -/
structure Place where
  line : Nat
  column : Nat
  deriving DecidableEq, Repr, Inhabited

def Place.first : Place := ⟨1, 0⟩

def Place.after (p : Place) (c : Char) : Place :=
  if c = '\n' then ⟨p.line + 1, 0⟩ else ⟨p.line, p.column + c.utf8Size⟩

/-- The place after so many bytes of a text, which may be inside a char. -/
def Place.afterBytes (p : Place) : Nat → List Char → Place
  | 0, _ => p
  | _, [] => p
  | n, c :: rest =>
    if c.utf8Size ≤ n then (p.after c).afterBytes (n - c.utf8Size) rest
    else ⟨p.line, p.column + n⟩

/-- What stands where something else was wanted. -/
inductive Found where
  | null
  | bool (value : Bool)
  | nat (value : Nat)
  | negative (value : Nat)
  | float (value : Float)
  | str (value : String)
  | list
  | record
  | bareCase

/-- The name of what was found. -/
def Found.text : Found → String
  | null => "null"
  | bool value => "boolean `" ++ (if value then "true" else "false") ++ "`"
  | nat value => "integer `" ++ toString value ++ "`"
  | negative value => "integer `-" ++ toString value ++ "`"
  | float value => "floating point `" ++ floatText value ++ "`"
  | str value => "string " ++ quoted value
  | list => "sequence"
  | record => "map"
  | bareCase => "unit variant"

/-- Why a text cannot be read. -/
inductive ReadCause where
  | endInList
  | endInRecord
  | endInString
  | endInValue
  | colonWanted
  | listEndWanted
  | recordEndWanted
  | wordWanted
  | valueWanted
  | badEscape
  | badNumber
  | numberTooLarge
  | loneSurrogate
  | cutSurrogate
  | controlInString
  | keyNotString
  | trailingComma
  | trailingText
  | tooDeep
  | wrongType (found : Found) (wanted : String)
  | wrongValue (found : Found) (wanted : String)
  | wrongLength (length : Nat) (wanted : String)
  | unknownCase (name : String) (known : List String)
  | unknownField (key : String) (known : List String)
  | missingField (key : String)
  | repeatedField (key : String)
  | span (fault : SpanFault)

/-- A name as it is quoted in messages. -/
def ticked (name : String) : String := "`" ++ name ++ "`"

/-- The names to choose from. -/
def oneOf : List String → String
  | [a] => ticked a
  | [a, b] => ticked a ++ " or " ++ ticked b
  | names => "one of " ++ ", ".intercalate (names.map ticked)

/-- The wording of a cause. -/
def ReadCause.message : ReadCause → String
  | endInList => "EOF while parsing a list"
  | endInRecord => "EOF while parsing an object"
  | endInString => "EOF while parsing a string"
  | endInValue => "EOF while parsing a value"
  | colonWanted => "expected `:`"
  | listEndWanted => "expected `,` or `]`"
  | recordEndWanted => "expected `,` or `\x7d`"
  | wordWanted => "expected ident"
  | valueWanted => "expected value"
  | badEscape => "invalid escape"
  | badNumber => "invalid number"
  | numberTooLarge => "number out of range"
  | loneSurrogate => "lone leading surrogate in hex escape"
  | cutSurrogate => "unexpected end of hex escape"
  | controlInString => "control character (\\u0000-\\u001F) found while parsing a string"
  | keyNotString => "key must be a string"
  | trailingComma => "trailing comma"
  | trailingText => "trailing characters"
  | tooDeep => "recursion limit exceeded"
  | wrongType found wanted => "invalid type: " ++ found.text ++ ", expected " ++ wanted
  | wrongValue found wanted => "invalid value: " ++ found.text ++ ", expected " ++ wanted
  | wrongLength length wanted => "invalid length " ++ toString length ++ ", expected " ++ wanted
  | unknownCase name known => "unknown variant " ++ ticked name ++ ", expected " ++ oneOf known
  | unknownField key known => "unknown field " ++ ticked key ++ ", expected " ++ oneOf known
  | missingField key => "missing field " ++ ticked key
  | repeatedField key => "duplicate field " ++ ticked key
  | span fault => fault.message

/-- A cause, and where it shows.  Faults of shape get their place from the value around them. -/
structure ReadFault where
  cause : ReadCause
  place : Option Place

/-- The wording of a fault. -/
def ReadFault.message (f : ReadFault) : String :=
  f.cause.message ++
    match f.place with
    | some p => " at line " ++ toString p.line ++ " column " ++ toString p.column
    | none => ""

end LunSyntax
