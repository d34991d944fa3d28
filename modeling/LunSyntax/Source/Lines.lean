/-!
# Lines of a source

A source as readers see it, in lines.  A line ends after a new-line, a carriage return (along with
a new-line after it), a tab or feed of lines, or one of the separators of Unicode.  There is no line
after the last end of line, and an empty source has one empty line.

`SourceLines.locate?` finds the line and column of an offset.
-/

set_option autoImplicit false

namespace LunSyntax

/-- A line and a column in it, both from zero on. -/
structure LineColumn where
  line : Nat
  column : Nat
  deriving DecidableEq, Repr

/-- A line: where it starts, and its chars with those which end it. -/
structure TextLine where
  start : Nat
  chars : List Char
  deriving DecidableEq, Repr

namespace TextLine

/-- The number of chars, with those which end the line. -/
def length (l : TextLine) : Nat := l.chars.length

def stop (l : TextLine) : Nat := l.start + l.length

end TextLine

/-- Chars which end a line. -/
def endsLine (c : Char) : Bool :=
  c == '\n' || c == '\r' || c == '\x0b' || c == '\x0c' || c == '\u0085' || c == '\u2028'
    || c == '\u2029'

/-- The chars of each line. -/
def lineChars : List Char → List (List Char)
  | [] => []
  | '\r' :: '\n' :: rest => ['\r', '\n'] :: lineChars rest
  | c :: rest =>
    if endsLine c then [c] :: lineChars rest
    else
      match lineChars rest with
      | line :: more => (c :: line) :: more
      | [] => [[c]]

/-- Lines from an offset on. -/
def linesFrom (start : Nat) : List (List Char) → List TextLine
  | [] => []
  | chars :: rest => ⟨start, chars⟩ :: linesFrom (start + chars.length) rest

/-- A source in lines. -/
structure SourceLines where
  lines : List TextLine
  length : Nat

namespace SourceLines

def ofSource (source : String) : SourceLines :=
  match linesFrom 0 (lineChars source.toList) with
  | [] => ⟨[⟨0, []⟩], 0⟩
  | lines => ⟨lines, source.length⟩

/-- The last line that starts at an offset or before it, with its number; `best` is the one found
so far. -/
def lastStarting (offset : Nat) (best : Nat × TextLine) : Nat → List TextLine → Nat × TextLine
  | _, [] => best
  | index, line :: rest =>
    if line.start ≤ offset then lastStarting offset (index, line) (index + 1) rest else best

/-- The line of an offset and its number.  The offset after the last char counts as of the last
line. -/
def lineOf? (s : SourceLines) (offset : Nat) : Option (Nat × TextLine) :=
  match s.lines with
  | first :: rest =>
    if offset ≤ s.length then some (lastStarting offset (0, first) 1 rest) else none
  | [] => none

def locate? (s : SourceLines) (offset : Nat) : Option LineColumn :=
  (s.lineOf? offset).map fun (index, line) => ⟨index, offset - line.start⟩

end SourceLines

end LunSyntax
