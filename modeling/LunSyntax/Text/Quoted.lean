import LunSyntax.Text.Visible

/-!
# Quoted text

Text in messages, between double quotes and on one line whatever it holds: the quote, the backslash
and common controls have short escapes, and other chars which are not visible are spelled out by
number.
-/

set_option autoImplicit false

namespace LunSyntax

def hexDigit (n : Nat) : Char :=
  if n < 10 then Char.ofNat ('0'.toNat + n) else Char.ofNat ('a'.toNat + (n - 10))

/-- A number in hexadecimal digits, without leading zeros. -/
def hexText (n : Nat) : List Char := Nat.toDigits 16 n

/-- A char in quotes. -/
def quotedChar (c : Char) : List Char :=
  if c == '\x22' then ['\\', '\x22']
  else if c == '\\' then ['\\', '\\']
  else if c == '\x00' then ['\\', '0']
  else if c == '\t' then ['\\', 't']
  else if c == '\r' then ['\\', 'r']
  else if c == '\n' then ['\\', 'n']
  else if isVisible c then [c]
  else ['\\', 'u', '{'] ++ hexText c.toNat ++ ['}']

def quoted (text : String) : String :=
  "\"" ++ String.ofList (text.toList.flatMap quotedChar) ++ "\""

end LunSyntax
