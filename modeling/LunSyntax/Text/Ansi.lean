/-!
# Colored text

Terminals take colors as escape sequences within a text.

* `paint` writes a text in a color;
* `stripAnsi` removes escape sequences, and controls other than white space along with them.
-/

set_option autoImplicit false

namespace LunSyntax

/-- A color of a terminal: red, or one of a palette of 256. -/
inductive Color where
  | red
  | fixed (index : Nat)
  deriving DecidableEq, Repr

/-- The parameters which select a color. -/
def Color.code : Color → String
  | red => "31"
  | fixed index => "38;5;" ++ toString index

def paint : Option Color → String → String
  | none, text => text
  | some color, text => "\x1b[" ++ color.code ++ "m" ++ text ++ "\x1b[0m"

/-- Where in an escape sequence a text is. -/
inductive EscapeState where
  /-- in plain text -/
  | ground
  /-- after the escape char -/
  | escape
  /-- after the first chars of a short sequence -/
  | intermediate
  /-- in a sequence with parameters, which a letter ends -/
  | control
  /-- in a command with a text, which a bell ends -/
  | command
  /-- in another text, which only an escape or a cancel ends -/
  | passthrough
  deriving DecidableEq, Repr

/-- Controls which are white space. -/
def isWhiteControl (c : Char) : Bool := c == '\t' || c == '\n' || c == '\x0c' || c == '\r'

/-- Whether a char of plain text is kept. -/
def isPrinted (c : Char) : Bool :=
  isWhiteControl c || (0x20 ≤ c.toNat && c.toNat != 0x7F)

/-- Whether a char breaks off an escape sequence and is kept. -/
def breaksOff (state : EscapeState) (c : Char) : Bool :=
  0x80 ≤ c.toNat ||
    match state with
    | .escape | .intermediate | .control => isWhiteControl c
    | _ => false

/-- The state after a char which is not kept. -/
def EscapeState.next (state : EscapeState) (c : Char) : EscapeState :=
  if c == '\x1b' then .escape
  else if c == '\x18' || c == '\x1a' then .ground
  else if c.toNat < 0x20 then if state == .command && c == '\x07' then .ground else state
  else
    match state with
    | .escape =>
      if c.toNat < 0x30 then .intermediate
      else if c == '[' then .control
      else if c == ']' then .command
      else if c == 'P' || c == 'X' || c == '^' || c == '_' then .passthrough
      else if c.toNat == 0x7F then .escape
      else .ground
    | .intermediate => if c.toNat < 0x30 || c.toNat == 0x7F then .intermediate else .ground
    | .control => if c.toNat < 0x40 || c.toNat == 0x7F then .control else .ground
    | state => state

/-- The chars of a text that are kept, from a state on. -/
def stripFrom : EscapeState → List Char → List Char
  | _, [] => []
  | .ground, c :: rest =>
    if isPrinted c then c :: stripFrom .ground rest
    else stripFrom (EscapeState.ground.next c) rest
  | state, c :: rest =>
    if breaksOff state c then c :: stripFrom .ground rest else stripFrom (state.next c) rest

/-- A text without escape sequences. -/
def stripAnsi (text : String) : String :=
  String.ofList (stripFrom .ground text.toList)

end LunSyntax
