import LunSyntax.Text.Numeral

/-!
# Places in sources

An `Extent` is a range of char offsets; a `Span` is an extent of one of several sources, which a
16-bit number tells apart.  Spans have a text form `id:start-stop`:

* `Span.text` writes it;
* `Span.ofText` reads it, with the three numbers in the ranges of 16, 64 and 64 bits.
-/

set_option autoImplicit false

namespace LunSyntax

/-- The largest offset that fits in a machine word. -/
def maxOffset : Nat := 0xFFFFFFFFFFFFFFFF

/-- The largest number of a source. -/
def maxSource : Nat := 0xFFFF

/-- A range of char offsets, from `start` to before `stop`. -/
structure Extent where
  start : Nat
  stop : Nat
  deriving DecidableEq, Repr, Inhabited

/-- A range of char offsets in the source of a number. -/
structure Span where
  source : UInt16
  start : Nat
  stop : Nat
  deriving DecidableEq, Repr, Inhabited

/-- An extent, placed in a source. -/
def Extent.inSource (e : Extent) (source : UInt16) : Span :=
  ⟨source, e.start, e.stop⟩

namespace Span

/-- The number of chars; none when the ends are reversed. -/
def length (s : Span) : Nat := s.stop - s.start

def isEmpty (s : Span) : Bool := s.length == 0

/-- From the first start to the last stop, in the source of the first span. -/
def cover (a b : Span) : Span :=
  ⟨a.source, min a.start b.start, max a.stop b.stop⟩

/-- The cover of two spans, which only those of one source have. -/
def merge? (a b : Span) : Option Span :=
  if a.source = b.source then some (a.cover b) else none

/-- Spans are ordered by start, then by stop; those of different sources have no order. -/
def compare? (a b : Span) : Option Ordering :=
  if a.source = b.source then some ((compare a.start b.start).then (compare a.stop b.stop))
  else none

/-- What stands between the delimiters at both ends; a span too short for two stays. -/
def inner (s : Span) : Span :=
  if 2 ≤ s.length then { s with start := s.start + 1, stop := s.stop - 1 } else s

def atStop (s : Span) : Span := { s with start := s.stop }

/-- The written form `id:start-stop`. -/
def text (s : Span) : String :=
  toString s.source.toNat ++ ":" ++ toString s.start ++ "-" ++ toString s.stop

end Span

/-- Why a text is no span. -/
inductive SpanFault where
  | malformed
  | numeral (fault : NumeralFault)
  deriving DecidableEq, Repr

def SpanFault.message : SpanFault → String
  | .malformed => "malformed span"
  | .numeral fault => fault.message

/-- The parts of a text before and after the first `sep`. -/
def splitAtFirst (sep : Char) : List Char → Option (List Char × List Char)
  | [] => none
  | c :: rest =>
    if c = sep then some ([], rest)
    else (splitAtFirst sep rest).map fun (a, b) => (c :: a, b)

/-- A decimal number of at most `limit`, as a part of a span. -/
def readPart (limit : Nat) (cs : List Char) : Except SpanFault Nat :=
  (readNumeral 10 limit cs).mapError .numeral

/-- Read the written form.  The number of the source is judged before the offsets are looked for. -/
def Span.ofText (text : String) : Except SpanFault Span := do
  match splitAtFirst ':' text.toList with
  | none => throw .malformed
  | some (id, offsets) =>
    let id ← readPart maxSource id
    match splitAtFirst '-' offsets with
    | none => throw .malformed
    | some (start, stop) =>
      let start ← readPart maxOffset start
      let stop ← readPart maxOffset stop
      return ⟨id.toUInt16, start, stop⟩

end LunSyntax
