/-!
# The shortest decimal of a float

A float stands for all reals that round to it, and is written with the fewest digits that denote
one of them; of two such numerals, the one nearer to the float.

* `shortestDecimal` finds the digits and their place, in exact arithmetic;
* `floatText` lays them out: with a point if the number is neither too large nor too small, else
  with an exponent.
-/

set_option autoImplicit false

namespace LunSyntax

/-- The number `digits · 10 ^ exponent`. -/
structure Decimal where
  digits : Nat
  exponent : Int
  deriving DecidableEq, Repr

structure Ratio where
  num : Nat
  den : Nat
  deriving DecidableEq, Repr

/-- The rational `base ^ exponent`. -/
def Ratio.power (base : Nat) : Int → Ratio
  | .ofNat n => ⟨Nat.pow base n, 1⟩
  | .negSucc n => ⟨1, Nat.pow base (n + 1)⟩

/-- The reals which round to `mantissa · 2 ^ exponent`, in quarters of the last place.  A power of
two is nearer to the number below it. -/
structure Neighbourhood where
  low : Nat
  centre : Nat
  high : Nat
  closed : Bool
  unit : Ratio

/-- The neighbourhood of a float; its ends belong to it if the mantissa is even. -/
def Neighbourhood.ofParts (mantissa : Nat) (exponent : Int) (atPower : Bool) : Neighbourhood where
  low := 4 * mantissa - (if atPower then 1 else 2)
  centre := 4 * mantissa
  high := 4 * mantissa + 2
  closed := mantissa % 2 == 0
  unit := Ratio.power 2 (exponent - 2)

namespace Neighbourhood

/-- Whether `digits · 10 ^ exponent` is in the neighbourhood. -/
def contains (n : Neighbourhood) (d : Decimal) : Bool :=
  let ten := Ratio.power 10 d.exponent
  let scaled := d.digits * ten.num * n.unit.den
  let low := n.low * n.unit.num * ten.den
  let high := n.high * n.unit.num * ten.den
  if n.closed then low ≤ scaled && scaled ≤ high else low < scaled && scaled < high

/-- The multiple of `10 ^ exponent` at or below the float, and twice the distance to it as a share
of `10 ^ exponent`, as numerator and denominator. -/
def floorAt (n : Neighbourhood) (exponent : Int) : Nat × Nat × Nat :=
  let ten := Ratio.power 10 exponent
  let num := n.centre * n.unit.num * ten.den
  let den := n.unit.den * ten.num
  (num / den, 2 * (num % den), den)

/-- The multiple of `10 ^ exponent` nearest to the float, of those in the neighbourhood. -/
def nearestAt? (n : Neighbourhood) (exponent : Int) : Option Decimal :=
  let (floor, twice, den) := n.floorAt exponent
  let below : Decimal := ⟨floor, exponent⟩
  let above : Decimal := ⟨floor + 1, exponent⟩
  match n.contains below && floor != 0, n.contains above with
  | true, true =>
    if twice < den || (twice == den && floor % 2 == 0) then some below else some above
  | true, false => some below
  | false, true => some above
  | false, false => none

/-- Try finer and finer grids of decimals. -/
def search (n : Neighbourhood) : Nat → Int → Decimal
  | 0, exponent => ⟨(n.floorAt exponent).1, exponent⟩
  | fuel + 1, exponent =>
    match n.nearestAt? exponent with
    | some d => d
    | none => n.search fuel (exponent - 1)

end Neighbourhood

/-- A numeral without zeros at its end. -/
def Decimal.trim (d : Decimal) : Nat → Decimal
  | 0 => d
  | fuel + 1 =>
    if d.digits != 0 && d.digits % 10 == 0 then
      Decimal.trim ⟨d.digits / 10, d.exponent + 1⟩ fuel
    else d

/-- The coarsest grid to try: no float reaches `10 ^ 309`. -/
def coarsest : Int := 309

/-- More grids than lie between the largest float and the last digit of the smallest. -/
def gridCount : Nat := 309 + 400

/-- The shortest decimal which denotes the float `mantissa · 2 ^ exponent`. -/
def shortestDecimal (mantissa : Nat) (exponent : Int) (atPower : Bool) : Decimal :=
  ((Neighbourhood.ofParts mantissa exponent atPower).search gridCount coarsest).trim 400

def zeros (n : Nat) : String := String.ofList (List.replicate n '0')

/-- A numeral: positional while the point is at most sixteen places after or five before the first
digit, else with one digit before the point and an exponent, which always has a sign. -/
def Decimal.text (d : Decimal) : String :=
  let digits := toString d.digits
  let count := digits.length
  let point : Int := count + d.exponent
  let head := String.ofList (digits.toList.take point.toNat)
  let tail := String.ofList (digits.toList.drop point.toNat)
  if 0 ≤ d.exponent ∧ point ≤ 16 then digits ++ zeros d.exponent.toNat ++ ".0"
  else if 0 < point ∧ point ≤ 16 then head ++ "." ++ tail
  else if -5 < point ∧ point ≤ 0 then "0." ++ zeros (-point).toNat ++ digits
  else
    let first := String.ofList (digits.toList.take 1)
    let others := String.ofList (digits.toList.drop 1)
    first ++ (if others.isEmpty then "" else "." ++ others) ++ (if point ≤ 0 then "e-" else "e+")
      ++ toString (point - 1).natAbs

/-- The bit in front of those of a mantissa, which a float has but does not store. -/
def hiddenBit : Nat := 0x10000000000000

/-- A float as it is written in JSON. -/
def floatText (f : Float) : String :=
  let bits := f.toBits.toNat
  let sign := if bits / 0x8000000000000000 == 1 then "-" else ""
  let biased : Nat := bits / hiddenBit % 0x800
  let fraction := bits % hiddenBit
  if biased == 0 && fraction == 0 then sign ++ "0.0"
  else if biased == 0 then sign ++ (shortestDecimal fraction (-1074) false).text
  else
    let exponent : Int := Int.ofNat biased - 1075
    sign ++ (shortestDecimal (hiddenBit + fraction) exponent (fraction == 0 && biased != 1)).text

end LunSyntax
