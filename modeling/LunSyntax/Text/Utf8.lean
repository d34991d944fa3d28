/-!
# Reading UTF-8

Bytes become chars one sequence after the other.  A sequence may be *invalid*, and then as many
bytes are at fault as could start a char, or *incomplete*, when the bytes end inside it.

* `decodeUtf8` accepts only well-formed bytes;
* `decodeUtf8Lossy` puts U+FFFD in place of each sequence that is not.
-/

set_option autoImplicit false

namespace LunSyntax

/-- What stands at the head of some bytes. -/
inductive Utf8Head where
  | char (c : Char) (length : Nat)
  | invalid (length : Nat)
  | incomplete

/-- The payload of a byte inside a sequence. -/
def continuation? (b : UInt8) : Option Nat :=
  if 0x80 ≤ b ∧ b ≤ 0xBF then some (b.toNat - 0x80) else none

/-- The bytes which may follow the first byte of a sequence of three or four: no code has two
forms, and surrogates and codes above the last plane have none. -/
def secondRange (first : UInt8) : UInt8 × UInt8 :=
  if first == 0xE0 then (0xA0, 0xBF)
  else if first == 0xED then (0x80, 0x9F)
  else if first == 0xF0 then (0x90, 0xBF)
  else if first == 0xF4 then (0x80, 0x8F)
  else (0x80, 0xBF)

/-- Read the bytes of a sequence after its first; `length` bytes were read so far. -/
def readTail (length : Nat) (code : Nat) : (missing : Nat) → List UInt8 → Utf8Head
  | 0, _ => .char (Char.ofNat code) length
  | _ + 1, [] => .incomplete
  | missing + 1, b :: rest =>
    match continuation? b with
    | some bits => readTail (length + 1) (code * 64 + bits) missing rest
    | none => .invalid length

/-- Read the first sequence of some bytes. -/
def utf8Head (first : UInt8) (rest : List UInt8) : Utf8Head :=
  if first < 0x80 then .char (Char.ofNat first.toNat) 1
  else if 0xC2 ≤ first ∧ first ≤ 0xDF then readTail 1 (first.toNat - 0xC0) 1 rest
  else if 0xE0 ≤ first ∧ first ≤ 0xF4 then
    let (code, missing) :=
      if first ≤ 0xEF then (first.toNat - 0xE0, 2) else (first.toNat - 0xF0, 3)
    match rest with
    | [] => .incomplete
    | second :: _ =>
      let (low, high) := secondRange first
      if low ≤ second ∧ second ≤ high then readTail 1 code missing rest else .invalid 1
  else .invalid 1

/-- Why bytes are no text: what is wrong after so many good bytes. -/
inductive Utf8Fault where
  | invalid (length index : Nat)
  | incomplete (index : Nat)
  deriving DecidableEq, Repr

def Utf8Fault.message : Utf8Fault → String
  | .invalid length index =>
    "invalid utf-8 sequence of " ++ toString length ++ " bytes from index " ++ toString index
  | .incomplete index => "incomplete utf-8 byte sequence from index " ++ toString index

/-- Decode bytes that follow `index` others. -/
def decodeUtf8From (index : Nat) : List UInt8 → Except Utf8Fault (List Char)
  | [] => .ok []
  | first :: rest =>
    match utf8Head first rest with
    | .char c length =>
      match decodeUtf8From (index + length) (rest.drop (length - 1)) with
      | .ok chars => .ok (c :: chars)
      | .error fault => .error fault
    | .invalid length => .error (.invalid length index)
    | .incomplete => .error (.incomplete index)
termination_by bytes => bytes.length
decreasing_by simp only [List.length_drop, List.length_cons]; omega

def decodeUtf8 (bytes : List UInt8) : Except Utf8Fault String :=
  (decodeUtf8From 0 bytes).map String.ofList

/-- The chars of bytes, with U+FFFD for what is not well-formed. -/
def lossyChars : List UInt8 → List Char
  | [] => []
  | first :: rest =>
    match utf8Head first rest with
    | .char c length => c :: lossyChars (rest.drop (length - 1))
    | .invalid length => '\uFFFD' :: lossyChars (rest.drop (length - 1))
    | .incomplete => ['\uFFFD']
termination_by bytes => bytes.length
decreasing_by all_goals simp only [List.length_drop, List.length_cons]; omega

/-- Decode any bytes. -/
def decodeUtf8Lossy (bytes : List UInt8) : String :=
  String.ofList (lossyChars bytes)

end LunSyntax
