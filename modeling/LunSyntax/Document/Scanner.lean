import LunSyntax.Document.Fault

/-!
# Scanning JSON

The lexical part of reading JSON: blanks, words, numbers and strings, each with the place where it
fails.  A `Reader` goes over a text from a `Scanner` on; when it fails, it tells how far it came,
because a value around it may want to say where that is.

* `Reader.string` reads a string after its opening quote, `Reader.number` a number;
* `Reader.skipValue` passes over any value, however deep.
-/

set_option autoImplicit false

namespace LunSyntax

/-- A place in a text, what follows it, and how many chars that are. -/
structure Scanner where
  rest : List Char
  left : Nat
  place : Place
  left_eq : left = rest.length

namespace Scanner

def start (text : String) : Scanner := ⟨text.toList, text.toList.length, .first, rfl⟩

/-- The place after so many bytes. -/
def placeAfter (s : Scanner) (bytes : Nat) : Place := s.place.afterBytes bytes s.rest

def advance : Scanner → Scanner
  | ⟨[], left, place, hleft⟩ => ⟨[], left, place, hleft⟩
  | ⟨c :: rest, left, place, hleft⟩ => ⟨rest, left - 1, place.after c, by simp [hleft]⟩

/-- Pass over chars of a class, at most as many as given. -/
def skipUpTo (p : Char → Bool) : Nat → Scanner → Scanner
  | 0, s => s
  | n + 1, s => if s.rest.head?.any p then skipUpTo p n s.advance else s

def skipWhile (p : Char → Bool) (s : Scanner) : Scanner := s.skipUpTo p s.left

end Scanner

/-- How reading ends: with a value, or with a fault, and how far it came. -/
inductive Reading (α : Type) where
  | ok (value : α) (after : Scanner)
  | fault (fault : ReadFault) (stopped : Scanner)

def Reading.scanner {α : Type} : Reading α → Scanner
  | ok _ after => after
  | fault _ stopped => stopped

/-- A reader of values. -/
def Reader (α : Type) : Type := Scanner → Reading α

namespace Reader

variable {α β : Type}

/-- Read nothing. -/
@[inline] def pure (a : α) : Reader α := fun s => .ok a s

/-- Run a reader, then one that depends on its value. -/
@[inline] def bind (r : Reader α) (f : α → Reader β) : Reader β := fun s =>
  match r s with
  | .ok a after => f a after
  | .fault fault stopped => .fault fault stopped

instance : Monad Reader where
  pure := Reader.pure
  bind := Reader.bind

/-- Fail, leaving the place to the value around. -/
def fail (cause : ReadCause) : Reader α := fun s => .fault ⟨cause, none⟩ s

/-- Fail at the place reached. -/
def failHere (cause : ReadCause) : Reader α := fun s => .fault ⟨cause, some s.place⟩ s

/-- Fail at the byte that comes next. -/
def failNext (cause : ReadCause) : Reader α := fun s =>
  .fault ⟨cause, some (s.placeAfter 1)⟩ s

/-- Give a fault without a place the place reached. -/
def placed (r : Reader α) : Reader α := fun s =>
  match r s with
  | .fault ⟨cause, none⟩ stopped => .fault ⟨cause, some stopped.place⟩ stopped
  | reading => reading

def peek : Reader (Option Char) := fun s => .ok s.rest.head? s

def skip : Reader Unit := fun s => .ok () s.advance

/-- Blanks between the parts of JSON. -/
def isJsonBlank (c : Char) : Bool := c == ' ' || c == '\n' || c == '\t' || c == '\r'

/-- The next char which is no blank. -/
def peekValue : Reader (Option Char) := fun s =>
  let after := s.skipWhile isJsonBlank
  .ok after.rest.head? after

/-- The rest of a word, such as `null` after its first letter. -/
def word : List Char → Reader Unit
  | [] => pure ()
  | c :: more => fun s =>
    match s.rest with
    | [] => failHere .endInValue s
    | d :: _ => if d = c then word more s.advance else failNext .wordWanted s

/-! ## Strings -/

/-- The value of four hexadecimal digits. -/
def fourDigits? (cs : List Char) : Option Nat :=
  match cs with
  | [a, b, c, d] =>
    match digitOf? 16 a, digitOf? 16 b, digitOf? 16 c, digitOf? 16 d with
    | some a, some b, some c, some d => some (((a * 16 + b) * 16 + c) * 16 + d)
    | _, _, _, _ => none
  | _ => none

/-- The bytes of a text. -/
def byteCount : List Char → Nat
  | [] => 0
  | c :: rest => c.utf8Size + byteCount rest

/-- Four hexadecimal digits.  What is wrong with other chars shows after four bytes. -/
def hexEscape : Reader Nat := fun s =>
  if byteCount (s.rest.take 4) < 4 then
    .fault ⟨.endInString, some (s.placeAfter 4)⟩ s
  else
    match fourDigits? (s.rest.take 4) with
    | some code => .ok code s.advance.advance.advance.advance
    | none => .fault ⟨.badEscape, some (s.placeAfter 4)⟩ s

/-- Whether a code is the first half of a pair. -/
def isHighSurrogate (code : Nat) : Bool := 0xD800 ≤ code && code ≤ 0xDBFF

/-- Whether a code is the second half of a pair. -/
def isLowSurrogate (code : Nat) : Bool := 0xDC00 ≤ code && code ≤ 0xDFFF

/-- The next char must be the one given. -/
def surrogatePart (c : Char) : Reader Unit := fun s =>
  match s.rest with
  | [] => failHere .endInString s
  | d :: _ => if d = c then skip s else failNext .cutSurrogate s

/-- A char by its number; one above the first plane takes two numbers. -/
def unicodeEscape : Reader Char := do
  let code ← hexEscape
  if isLowSurrogate code then failHere .loneSurrogate
  else if isHighSurrogate code then
    surrogatePart '\\'
    surrogatePart 'u'
    let low ← hexEscape
    if isLowSurrogate low then
      return Char.ofNat (0x10000 + (code - 0xD800) * 0x400 + (low - 0xDC00))
    else failHere .loneSurrogate
  else return Char.ofNat code

/-- The char an escape of one letter denotes. -/
def simpleEscape? (c : Char) : Option Char :=
  if c == '\x22' || c == '\\' || c == '/' then some c
  else if c == 'b' then some '\x08'
  else if c == 'f' then some '\x0c'
  else if c == 'n' then some '\n'
  else if c == 'r' then some '\r'
  else if c == 't' then some '\t'
  else none

/-- An escape, after its backslash. -/
def escape : Reader Char := fun s =>
  match s.rest with
  | [] => failHere .endInString s
  | c :: _ =>
    if c = 'u' then unicodeEscape s.advance
    else
      match simpleEscape? c with
      | some d => .ok d s.advance
      | none => failNext .badEscape s

/-- An escape in a string which is not wanted; its char need not exist. -/
def skipEscape : Reader Unit := fun s =>
  match s.rest with
  | [] => failHere .endInString s
  | c :: _ =>
    if c = 'u' then (do let _ ← hexEscape; return ()) s.advance
    else if (simpleEscape? c).isSome then skip s
    else failNext .badEscape s

/-- The rest of a string, after the chars `before` it, last first.  Every step takes at least one
char, so the length of the text is fuel enough. -/
def stringFrom : Nat → List Char → Reader String
  | 0, _ => failHere .endInString
  | fuel + 1, before => fun s =>
    match s.rest with
    | [] => failHere .endInString s
    | c :: _ =>
      if c = '\x22' then .ok (String.ofList before.reverse) s.advance
      else if c = '\\' then
        match escape s.advance with
        | .ok d after => stringFrom fuel (d :: before) after
        | .fault fault stopped => .fault fault stopped
      else if c.toNat < 0x20 then failNext .controlInString s
      else stringFrom fuel (c :: before) s.advance

/-- A string, after its opening quote. -/
def string : Reader String := fun s => stringFrom (s.left + 1) [] s

/-- The rest of a string which is not wanted. -/
def skipStringFrom : Nat → Reader Unit
  | 0 => failHere .endInString
  | fuel + 1 => fun s =>
    match s.rest with
    | [] => failHere .endInString s
    | c :: _ =>
      if c = '\x22' then skip s
      else if c = '\\' then
        match skipEscape s.advance with
        | .ok _ after => skipStringFrom fuel after
        | .fault fault stopped => .fault fault stopped
      else if c.toNat < 0x20 then failHere .controlInString s
      else skipStringFrom fuel s.advance

/-- A string which is not wanted, after its opening quote. -/
def skipString : Reader Unit := fun s => skipStringFrom (s.left + 1) s

/-! ## Numbers -/

/-- A number as JSON has it: an integer of 64 bits, or else a float. -/
inductive JsonNumber where
  | nat (value : Nat)
  | negative (value : Nat)
  | float (value : Float)

def isDecimal (c : Char) : Bool := '0' ≤ c && c ≤ '9'

def decimalValue (c : Char) : Nat := c.toNat - '0'.toNat

def digits : Reader (List Char) := fun s =>
  .ok (s.rest.takeWhile isDecimal) (s.skipWhile isDecimal)

/-- All digits that come next, left where they are. -/
def nextDigits : Reader (List Char) := fun s => .ok (s.rest.takeWhile isDecimal) s

/-- Continue a number by digits as long as it is at most `limit`, and count them. -/
def accept (limit : Nat) : Nat → List Char → Nat × Nat
  | value, [] => (value, 0)
  | value, c :: rest =>
    let next := value * 10 + decimalValue c
    if next ≤ limit then
      let (result, count) := accept limit next rest
      (result, count + 1)
    else (value, 0)

/-- The largest significand kept; further digits only move the point. -/
def maxSignificand : Nat := 0xFFFFFFFFFFFFFFFF

def maxExponent : Nat := 0x7FFFFFFF

def maxPower : Nat := 308

def powerOfTen (n : Nat) : Float := Float.ofScientific 1 false n

/-- Divide by a power of ten that may be too small for a float: in steps, until nothing is left. -/
def divideSteps : Nat → Float → Nat → Float
  | 0, f, _ => f
  | fuel + 1, f, n =>
    if n ≤ maxPower then f / powerOfTen n
    else if f == 0 then f
    else divideSteps fuel (f / powerOfTen maxPower) (n - maxPower)

/-- The float `significand · 10 ^ exponent`, unless it is too large. -/
def floatOfParts? (significand : Nat) : Int → Option Float
  | .ofNat n =>
    let f := significand.toUInt64.toFloat
    if n ≤ maxPower then
      let product := f * powerOfTen n
      if product.isInf then none else some product
    else if f == 0 then some f
    else none
  | .negSucc n => some (divideSteps 5 significand.toUInt64.toFloat (n + 1))

/-- A float, or the fault that it is too large. -/
def floatOf (negative : Bool) (significand : Nat) (exponent : Int) : Reader JsonNumber :=
  match floatOfParts? significand exponent with
  | some f => return .float (if negative then -f else f)
  | none => failHere .numberTooLarge

/-- Pass over so many chars. -/
def skipCount : Nat → Reader Unit
  | 0 => pure ()
  | n + 1 => do
    skip
    skipCount n

/-- A digit that has to come next. -/
def firstDigit : Reader Char := fun s =>
  match s.rest with
  | [] => failHere .endInValue s
  | c :: _ => if isDecimal c then .ok c s.advance else failNext .badNumber s

/-- The sign of an exponent. -/
def exponentSign : Reader Bool := do
  match ← peek with
  | some '+' => skip; return false
  | some '-' => skip; return true
  | _ => return false

/-- An exponent after its mark, and the number it ends. -/
def exponentPart (negative : Bool) (significand : Nat) (exponent : Int) : Reader JsonNumber := do
  skip
  let below ← exponentSign
  let first ← firstDigit
  let more ← nextDigits
  let (value, count) := accept maxExponent (decimalValue first) more
  skipCount count
  if count < more.length then
    skip
    if significand != 0 && !below then failHere .numberTooLarge
    else
      let _ ← digits
      return .float (if negative then -0.0 else 0.0)
  else floatOf negative significand (if below then exponent - value else exponent + value)

/-- Whether a char marks an exponent. -/
def isExponentMark (c : Char) : Bool := c == 'e' || c == 'E'

/-- The digits after a point, and the number they end. -/
def fractionPart (negative : Bool) (significand : Nat) (exponent : Int) : Reader JsonNumber := do
  skip
  let ds ← digits
  if ds.isEmpty then
    match ← peek with
    | some _ => failNext .badNumber
    | none => failNext .endInValue
  else
    let (value, count) := accept maxSignificand significand ds
    if (← peek).any isExponentMark then exponentPart negative value (exponent - count)
    else floatOf negative value (exponent - count)

/-- The end of a number without fraction and exponent. -/
def integerOf (negative : Bool) (significand : Nat) : JsonNumber :=
  if !negative then .nat significand
  else if 1 ≤ significand && significand ≤ 0x8000000000000000 then .negative significand
  else .float (-significand.toUInt64.toFloat)

/-- A number, after its sign. -/
def number (negative : Bool) : Reader JsonNumber := do
  let first ← firstDigit
  if first == '0' && (← peek).any isDecimal then failNext .badNumber
  else
    let ds ← if first == '0' then pure [] else digits
    let (value, count) := accept maxSignificand (decimalValue first) ds
    let exponent : Int := ds.length - count
    let next ← peek
    if next == some '.' then fractionPart negative value exponent
    else if next.any isExponentMark then exponentPart negative value exponent
    else if count == ds.length then return integerOf negative value
    else floatOf negative value exponent

/-- A digit that has to come next, in a number which is not wanted. -/
def skipFirstDigit : Reader Char := fun s =>
  match s.rest with
  | [] => failHere .badNumber s
  | c :: _ => if isDecimal c then .ok c s.advance else failNext .badNumber s

/-- An exponent which is not wanted. -/
def skipExponent : Reader Unit := do
  skip
  let _ ← exponentSign
  let _ ← skipFirstDigit
  let _ ← digits
  return ()

/-- A number which is not wanted, after its sign. -/
def skipNumber : Reader Unit := do
  let first ← skipFirstDigit
  if first == '0' && (← peek).any isDecimal then failNext .badNumber
  else
    let _ ← if first == '0' then pure [] else digits
    let next ← peek
    if next == some '.' then
      skip
      if (← digits).isEmpty then failNext .badNumber
      else if (← peek).any isExponentMark then skipExponent
    else if next.any isExponentMark then skipExponent

/-! ## Values which are not wanted -/

/-- The brackets a value may be in. -/
inductive Bracket where
  | list
  | record
  deriving DecidableEq

/-- The char which closes a bracket. -/
def Bracket.close : Bracket → Char
  | list => ']'
  | record => '}'

/-- The colon between a key and its value. -/
def colon : Reader Unit := do
  match ← peekValue with
  | some ':' => skip
  | some _ => failNext .colonWanted
  | none => failNext .endInRecord

/-- The key of a value which is not wanted, if it has one. -/
def skipKey : Bracket → Reader Unit
  | .list => pure ()
  | .record => do
    match ← peekValue with
    | some '\x22' =>
      skip
      skipString
      colon
    | some _ => failNext .keyNotString
    | none => failNext .endInRecord

mutual

/-- Pass over a value inside of brackets, and over what follows until all are closed.  Every call
but one in two takes a char. -/
def skipInside : Nat → List Bracket → Reader Unit
  | 0, _ => failHere .endInValue
  | fuel + 1, brackets => do
    match ← peekValue with
    | none => failNext .endInValue
    | some 'n' => skip; word ['u', 'l', 'l']; skipAfter fuel brackets true
    | some 't' => skip; word ['r', 'u', 'e']; skipAfter fuel brackets true
    | some 'f' => skip; word ['a', 'l', 's', 'e']; skipAfter fuel brackets true
    | some '-' => skip; skipNumber; skipAfter fuel brackets true
    | some '\x22' => skip; skipString; skipAfter fuel brackets true
    | some '[' => skip; skipAfter fuel (.list :: brackets) false
    | some '{' => skip; skipAfter fuel (.record :: brackets) false
    | some c =>
      if isDecimal c then
        skipNumber
        skipAfter fuel brackets true
      else failNext .valueWanted

/-- Pass over what follows a value, or an opening bracket, until all brackets are closed. -/
def skipAfter : Nat → List Bracket → Bool → Reader Unit
  | _, [], _ => pure ()
  | 0, _, _ => failHere .endInValue
  | fuel + 1, bracket :: outer, afterValue => do
    match ← peekValue with
    | none => failNext (match bracket with | .list => .endInList | .record => .endInRecord)
    | some c =>
      if c = bracket.close then
        skip
        skipAfter fuel outer true
      else if !afterValue then
        skipKey bracket
        skipInside fuel (bracket :: outer)
      else if c = ',' then
        skip
        skipKey bracket
        skipInside fuel (bracket :: outer)
      else
        failNext (match bracket with | .list => .listEndWanted | .record => .recordEndWanted)

end

/-- Pass over a value of any kind and depth. -/
def skipValue : Reader Unit := fun s => skipInside (2 * s.left + 2) [] s

end Reader

end LunSyntax
