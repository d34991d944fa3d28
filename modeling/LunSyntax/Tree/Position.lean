/-!
# Positions in bytes

Spans count chars, nodes count bytes.  A `SourceIndex` leads from a char to its first byte and
from a byte to a `Point`: the row, as new-line chars divide the source, and the bytes since its
start.
-/

set_option autoImplicit false

namespace LunSyntax

/-- A row and a column in bytes, both from zero on. -/
structure Point where
  row : Nat
  column : Nat
  deriving DecidableEq, Repr

/-- A point in parentheses. -/
def Point.text (p : Point) : String :=
  "(" ++ toString p.row ++ ", " ++ toString p.column ++ ")"

/-- The first byte of each char, and of each row. -/
structure SourceIndex where
  charStarts : Array Nat
  rowStarts : List Nat
  size : Nat

namespace SourceIndex

/-- The first bytes of chars from a byte on, and the byte after them. -/
def startsFrom (offset : Nat) : List Char → List Nat
  | [] => [offset]
  | c :: rest => offset :: startsFrom (offset + c.utf8Size) rest

/-- The bytes after the new-line chars of a text that starts at a byte. -/
def rowsFrom (offset : Nat) : List Char → List Nat
  | [] => []
  | c :: rest =>
    let next := offset + c.utf8Size
    if c = '\n' then next :: rowsFrom next rest else rowsFrom next rest

/-- The index of a source. -/
def ofSource (source : String) : SourceIndex :=
  let chars := source.toList
  ⟨(startsFrom 0 chars).toArray, 0 :: rowsFrom 0 chars, source.utf8ByteSize⟩

/-- The first byte of a char; past the end it is the end. -/
def byte (index : SourceIndex) (char : Nat) : Nat :=
  index.charStarts[char]?.getD index.size

/-- The number of chars. -/
def charCount (index : SourceIndex) : Nat := index.charStarts.size - 1

/-- The point of a byte. -/
def point (index : SourceIndex) (byte : Nat) : Point :=
  let before := index.rowStarts.takeWhile (· ≤ byte)
  ⟨before.length - 1, byte - before.getLast?.getD 0⟩

end SourceIndex

end LunSyntax
