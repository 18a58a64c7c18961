/-!
# Binary64 numbers

Floating point numbers of the 64-bit binary format, as exact values. The finite magnitudes, in increasing order from zero,
are numbered by their *rank*; a finite number is a sign and a rank. Every finite magnitude is a whole count of *units* of
2⁻¹⁰⁷⁴ (`units`), so sums, products and quotients are formed exactly and rounded once, to the nearest magnitude and to the
even rank on a tie (`ofRatio`). A magnitude past the last rank rounds to infinity.
-/

namespace Stencil

namespace Binary64

/-- How many magnitudes there are from one power of two to the next, which is 2⁵². -/
abbrev binade : Nat := 4503599627370496

/-- How many finite magnitudes there are. -/
abbrev rankCount : Nat := 2047 * binade

end Binary64

/-- A binary64 number. Zero has two signs; no payload is kept with `nan`. -/
inductive Binary64
  | nan
  | infinite (negative : Bool)
  | finite (negative : Bool) (rank : Fin Binary64.rankCount)
  deriving DecidableEq

namespace Binary64

/-- How many units make one. -/
def unitsPerOne : Nat := 1 <<< 1074

/-- How far the significand of a magnitude is shifted: each binade above the first two doubles the step. -/
def shiftOf (rank : Nat) : Nat := rank / binade - 1

/-- The units in the magnitude of a rank. -/
def units (rank : Nat) : Nat := (rank - shiftOf rank * binade) <<< shiftOf rank

/-- A number with its sign. -/
def signed (negative : Bool) (magnitude : Nat) : Int := if negative then -magnitude else magnitude

/-- The number of a sign and a rank, infinite past the last rank. -/
def ofRank (negative : Bool) (rank : Nat) : Binary64 :=
  if h : rank < rankCount then finite negative ⟨rank, h⟩ else infinite negative

/-- The nearest whole number to `n / d`, the even one on a tie. -/
def divideToEven (n d : Nat) : Nat :=
  let quotient := n / d
  let remainder := n % d
  if 2 * remainder < d then quotient
  else if d < 2 * remainder then quotient + 1
  else quotient + quotient % 2

/-- The rank of the magnitude nearest to `n / d`, ties going to the even rank. -/
def nearestRank (n d : Nat) : Nat :=
  let scaled := n * unitsPerOne
  let shift := (scaled / d).log2 - 52
  shift * binade + divideToEven scaled (d <<< shift)

/-- The number of a sign nearest to the magnitude `n / d`. -/
def ofRatio (negative : Bool) (n d : Nat) : Binary64 := ofRank negative (nearestRank n d)

/-- The number nearest to an integer. -/
def ofInt (n : Int) : Binary64 := ofRatio (n < 0) n.natAbs 1

/-- Zero with a plus sign. -/
def zero : Binary64 := ofRank false 0

/-- One half. -/
def half : Binary64 := ofRatio false 1 2

/-- The exact value of a finite number, counted in units. -/
def toUnits? : Binary64 → Option Int
  | nan | infinite _ => none
  | finite negative rank => some (signed negative (units rank))

/-- Whether a number is finite. -/
def isFinite : Binary64 → Bool
  | finite .. => true
  | _ => false

/-- Whether a number is zero of either sign. -/
def isZero : Binary64 → Bool
  | finite _ rank => rank.val = 0
  | _ => false

/-- Whether a number lies below zero. -/
def isNegative : Binary64 → Bool
  | nan => false
  | infinite negative => negative
  | finite negative rank => negative && rank.val ≠ 0

/-- The number with the other sign. -/
def neg : Binary64 → Binary64
  | nan => nan
  | infinite negative => infinite !negative
  | finite negative rank => finite (!negative) rank

/-- The number without its sign. -/
def abs : Binary64 → Binary64
  | nan => nan
  | infinite _ => infinite false
  | finite _ rank => finite false rank

/-- The sum, rounded. An exact sum of zero is negative only if both terms are. -/
def add : Binary64 → Binary64 → Binary64
  | nan, _ | _, nan => nan
  | infinite a, infinite b => if a = b then infinite a else nan
  | infinite a, finite .. => infinite a
  | finite .., infinite b => infinite b
  | finite a r, finite b s =>
    let total := signed a (units r) + signed b (units s)
    if total = 0 then finite (a && b) ⟨0, by decide⟩ else ofRatio (total < 0) total.natAbs unitsPerOne

/-- The difference, rounded. -/
def sub (x y : Binary64) : Binary64 := add x y.neg

/-- The product, rounded. -/
def mul : Binary64 → Binary64 → Binary64
  | nan, _ | _, nan => nan
  | infinite a, infinite b => infinite (a != b)
  | infinite a, finite b s => if s.val = 0 then nan else infinite (a != b)
  | finite a r, infinite b => if r.val = 0 then nan else infinite (a != b)
  | finite a r, finite b s => ofRatio (a != b) (units r * units s) (unitsPerOne * unitsPerOne)

/-- The quotient, rounded. A finite number over zero is infinite, except that zero over zero is `nan`. -/
def div : Binary64 → Binary64 → Binary64
  | nan, _ | _, nan => nan
  | infinite _, infinite _ => nan
  | infinite a, finite b _ => infinite (a != b)
  | finite a _, infinite b => finite (a != b) ⟨0, by decide⟩
  | finite a r, finite b s =>
    if s.val = 0 then if r.val = 0 then nan else infinite (a != b)
    else ofRatio (a != b) (units r) (units s)

/-- The exact remainder of two numbers that do not lie below zero. There is none for an infinite dividend or a zero divisor, and
an infinite divisor leaves the dividend as it is. -/
def mod : Binary64 → Binary64 → Binary64
  | nan, _ | _, nan => nan
  | infinite _, _ => nan
  | finite _ r, infinite _ => finite false r
  | finite _ r, finite _ s => if s.val = 0 then nan else ofRatio false (units r % units s) unitsPerOne

/-- The square root, rounded: `nan` below zero, and a zero keeps its sign. The root is taken of a radicand so large that its
whole part and the one bit saying whether it is exact decide the rounding. -/
def sqrt : Binary64 → Binary64
  | nan => nan
  | infinite negative => if negative then nan else infinite false
  | finite negative rank =>
    if rank.val = 0 then finite negative rank
    else if negative then nan
    else
      let radicand := units rank * unitsPerOne
      let root := radicand.sqrt
      ofRatio false (2 * root + if root * root = radicand then 0 else 1) (2 * unitsPerOne)

/-- The largest integer that is not above a count of units. -/
def floorUnits (u : Int) : Int := u / unitsPerOne

/-- The smallest integer that is not below a count of units. -/
def ceilUnits (u : Int) : Int := -(-u / unitsPerOne)

/-- The integer part of a count of units, toward zero. -/
def truncateUnits (u : Int) : Int := u.tdiv unitsPerOne

/-- Whether a number is an integer. -/
def isInteger (x : Binary64) : Bool :=
  match x.toUnits? with
  | none => false
  | some u => u % unitsPerOne = 0

/-- The bit of the sign. -/
def signBit : Nat := 1 <<< 63

/-- The number as its 64 bits: a sign, then the rank, which counts on past the finite magnitudes to infinity. -/
def toBits : Binary64 → UInt64
  | nan => 0x7FF8000000000000
  | infinite negative => .ofNat (rankCount + if negative then signBit else 0)
  | finite negative rank => .ofNat (rank + if negative then signBit else 0)

/-- The number that 64 bits stand for. -/
def ofBits (bits : UInt64) : Binary64 :=
  let negative := signBit ≤ bits.toNat
  let rank := bits.toNat % signBit
  if rankCount < rank then nan else ofRank negative rank

end Binary64

end Stencil
