import Stencil.Number.Binary64
import Stencil.Text.Digit

/-!
# Decimal texts of binary64 numbers

Writing a number with the fewest digits that read back as the same number, and reading a decimal as the nearest number.

All magnitudes are multiples of 10⁻¹⁰⁷⁵ (`grains`), and so are the ends of the interval of reals that round to a given one.
The text takes the coarsest decimal grid with a point in that interval, and of two such points the nearer.
-/

namespace Stencil.Binary64

/-- A power of ten. -/
def tenTo (k : Nat) : Nat := Nat.pow 10 k

/-- The grains in half a unit. -/
def grainsPerHalfUnit : Nat := Nat.pow 5 1075

/-- A magnitude in grains. -/
def grains (rank : Nat) : Nat := 2 * units rank * grainsPerHalfUnit

/-- The least and the greatest count of grains that rounds to a magnitude other than zero: the midpoints to the neighbouring
ranks belong to the even rank. -/
def grainInterval (rank : Nat) : Nat × Nat :=
  let low := (units (rank - 1) + units rank) * grainsPerHalfUnit
  let high := (units rank + units (rank + 1)) * grainsPerHalfUnit
  if rank % 2 = 0 then (low, high) else (low + 1, high - 1)

/-- The largest exponent, from `start` down, whose power of ten has a multiple between two bounds. -/
def coarsestGrid (low high : Nat) : Nat → Nat
  | 0 => 0
  | k + 1 => if low ≤ high / tenTo (k + 1) * tenTo (k + 1) then k + 1 else coarsestGrid low high k

/-- The multiple of `step` nearest to `target` among those between two bounds, counted in steps; the even one on a tie. -/
def nearestMultiple (low high target step : Nat) : Nat :=
  let below := target / step
  if below * step < low then below + 1
  else if high < (below + 1) * step then below
  else divideToEven target step

/-- An exponent whose power of ten is above a number. -/
def exponentAbove (n : Nat) : Nat := (n.log2 + 1) * 31 / 100 + 1

/-- The digits of the shortest decimal of a magnitude other than zero, and the power of ten of the last one. -/
def shortest (rank : Nat) : Nat × Int :=
  let (low, high) := grainInterval rank
  let k := coarsestGrid low high (exponentAbove high)
  (nearestMultiple low high (grains rank) (tenTo k), k - 1075)

/-- A decimal with a point in it. Numbers from 10⁻⁴ up to 10¹⁶ are written out, with `.0` after an integer; the others have
one digit before the point and an exponent of two digits or more with its sign. -/
def layout (digits : Text) (exponent : Int) : Text :=
  let leading := digits.length + exponent - 1
  if -4 ≤ leading && leading < 16 then
    if 0 ≤ exponent then digits ++ List.replicate exponent.toNat '0' ++ ['.', '0']
    else if 0 ≤ leading then digits.take (leading.toNat + 1) ++ ['.'] ++ digits.drop (leading.toNat + 1)
    else ['0', '.'] ++ List.replicate (-leading - 1).toNat '0' ++ digits
  else
    let point := if digits.length = 1 then [] else '.' :: digits.drop 1
    let size := Text.numeral leading.natAbs
    let padded := if size.length < 2 then '0' :: size else size
    digits.take 1 ++ point ++ ['e', if leading < 0 then '-' else '+'] ++ padded

/-- The shortest text that reads back as the number. -/
def toText : Binary64 → Text
  | nan => "nan".toList
  | infinite negative => (if negative then "-inf" else "inf").toList
  | finite negative rank =>
    let magnitude :=
      if rank.val = 0 then layout ['0'] 0
      else
        let (digits, exponent) := shortest rank
        layout (Text.numeral digits) exponent
    if negative then '-' :: magnitude else magnitude

/-- The number nearest to `digits · 10 ^ exponent`. Far outside the range the answer is known without the power. -/
def ofDecimal (negative : Bool) (digits : Nat) (exponent : Int) : Binary64 :=
  let size := (Text.numeral digits).length + exponent
  if digits = 0 || size < -400 then ofRank negative 0
  else if 400 < size then infinite negative
  else ofRatio negative (digits * tenTo exponent.toNat) (tenTo (-exponent).toNat)

/-- The number of a sign and a numeral with a point: the digits before it and after it. -/
def ofPointed (negative : Bool) (whole fraction : Text) : Binary64 :=
  ofDecimal negative (Text.numeralValue (whole ++ fraction)) (-fraction.length)

/-- The sign of a text and what follows it. -/
def takeSign : Text → Bool × Text
  | '-' :: rest => (true, rest)
  | '+' :: rest => (false, rest)
  | t => (false, t)

/-- The magnitude that a text spells with digits, a point among or after them and a power of ten, each but the first
optional. -/
def readMagnitude? (negative : Bool) (t : Text) : Option Binary64 :=
  let (mantissa, power) := (Text.splitAtFirst? (fun c => c = 'e' || c = 'E') t).getD (t, ['0'])
  let (whole, fraction) := (Text.splitAtFirst? (· = '.') mantissa).getD (mantissa, [])
  let (powerNegative, powerDigits) := takeSign power
  let digits := whole ++ fraction
  if digits.isEmpty || powerDigits.isEmpty || !digits.all Text.isDigit || !powerDigits.all Text.isDigit then none
  else
    let exponent := signed powerNegative (Text.numeralValue powerDigits)
    some (ofDecimal negative (Text.numeralValue digits) (exponent - fraction.length))

/-- The number that a text spells, in any of the forms that numbers are written in. -/
def ofText? (t : Text) : Option Binary64 :=
  let (negative, magnitude) := takeSign t
  if magnitude = "inf".toList then some (infinite negative)
  else if magnitude = "nan".toList then some nan
  else readMagnitude? negative magnitude

end Stencil.Binary64
