/-!
# Unsigned numerals in a radix

Reading digits from left to right, as numbers in spans and integer literals are written.  The
digits may follow one `+`.  A numeral fails at its first bad place:

* `NumeralFault.empty`: nothing to read;
* `NumeralFault.invalidDigit`: a char which is no digit of the radix, or a lone sign;
* `NumeralFault.tooLarge`: the digits read so far exceed the largest number allowed.
-/

set_option autoImplicit false

namespace LunSyntax

/-- Why a text is no numeral. -/
inductive NumeralFault where
  | empty
  | invalidDigit
  | tooLarge
  deriving DecidableEq, Repr

def NumeralFault.message : NumeralFault → String
  | .empty => "cannot parse integer from empty string"
  | .invalidDigit => "invalid digit found in string"
  | .tooLarge => "number too large to fit in target type"

/-- The value of an ASCII digit: `0`-`9`, then the letters of either case from ten on. -/
def digitValue? (c : Char) : Option Nat :=
  if '0' ≤ c ∧ c ≤ '9' then some (c.toNat - '0'.toNat)
  else if 'a' ≤ c ∧ c ≤ 'z' then some (c.toNat - 'a'.toNat + 10)
  else if 'A' ≤ c ∧ c ≤ 'Z' then some (c.toNat - 'A'.toNat + 10)
  else none

def digitOf? (radix : Nat) (c : Char) : Option Nat :=
  (digitValue? c).filter (· < radix)

/-- Continue a number by digits, never above `limit`. -/
def readDigits (radix limit : Nat) : Nat → List Char → Except NumeralFault Nat
  | value, [] => .ok value
  | value, c :: rest =>
    match digitOf? radix c with
    | none => .error .invalidDigit
    | some d =>
      if value * radix + d ≤ limit then readDigits radix limit (value * radix + d) rest
      else .error .tooLarge

/-- Read a whole numeral of at most `limit`. -/
def readNumeral (radix limit : Nat) : List Char → Except NumeralFault Nat
  | [] => .error .empty
  | ['+'] => .error .invalidDigit
  | '+' :: rest => readDigits radix limit 0 rest
  | cs => readDigits radix limit 0 cs

end LunSyntax
