import Stencil.Number.Decimal
import Stencil.Number.Power

/-!
# Numbers

The numbers of expressions: integers of any size and binary64 numbers. Two integers are added, subtracted and multiplied
exactly; any other pair is taken to binary64 first. Comparison is exact between the two kinds.
-/

namespace Stencil

/-- A number of an expression. -/
inductive Number
  | int (n : Int)
  | float (x : Binary64)
  deriving DecidableEq

namespace Number

/-- Why arithmetic has no result. -/
inductive Fault
  /-- An integer lies beyond every binary64 number. -/
  | integerTooLarge
  /-- A quotient of integers lies beyond every binary64 number. -/
  | quotientTooLarge
  /-- The divisor is zero. -/
  | divisionByZero
  /-- A function has no value at its arguments. -/
  | undefined (reason : Binary64.Undefined)
  /-- An infinity has no integer part. -/
  | infinityToInteger
  /-- The number that is none has no integer part. -/
  | nanToInteger
  deriving DecidableEq

/-- A fault in words. -/
def Fault.message : Fault → Text
  | integerTooLarge => "int too large to convert to float".toList
  | quotientTooLarge => "integer division result too large for a float".toList
  | divisionByZero => "Division by zero".toList
  | undefined .domain => "math domain error".toList
  | undefined .range => "math range error".toList
  | infinityToInteger => "cannot convert float infinity to integer".toList
  | nanToInteger => "cannot convert float NaN to integer".toList

/-- The binary64 number nearest to a number; an integer that rounds to infinity has none. -/
def toBinary64 : Number → Except Fault Binary64
  | float x => .ok x
  | int n =>
    match Binary64.ofInt n with
    | .infinite _ => .error .integerTooLarge
    | x => .ok x

/-- Whether a number is zero. -/
def isZero : Number → Bool
  | int n => n = 0
  | float x => x.isZero

/-- Whether a number lies below zero. -/
def isNegative : Number → Bool
  | int n => n < 0
  | float x => x.isNegative

/-- The number of opposite sign. -/
def neg : Number → Number
  | int n => int (-n)
  | float x => float x.neg

/-- The absolute value. -/
def abs : Number → Number
  | int n => int n.natAbs
  | float x => float x.abs

/-- An operation that is exact on two integers and rounded on any other pair. -/
def lift (onInts : Int → Int → Int) (onFloats : Binary64 → Binary64 → Binary64) :
    Number → Number → Except Fault Number
  | int m, int n => .ok (int (onInts m n))
  | x, y => do return float (onFloats (← x.toBinary64) (← y.toBinary64))

/-- The sum. -/
def add : Number → Number → Except Fault Number := lift (· + ·) .add

/-- The difference. -/
def sub : Number → Number → Except Fault Number := lift (· - ·) .sub

/-- The product. -/
def mul : Number → Number → Except Fault Number := lift (· * ·) .mul

/-- The quotient of two integers, rounded once. -/
def divideInts (m n : Int) : Except Fault Number :=
  match Binary64.ofRatio ((m < 0) != (n < 0)) m.natAbs n.natAbs with
  | .infinite _ => .error .quotientTooLarge
  | x => .ok (float x)

/-- The quotient, always a binary64 number. -/
def div (x y : Number) : Except Fault Number :=
  if y.isZero then .error .divisionByZero
  else
    match x, y with
    | int m, int n => divideInts m n
    | x, y => do return float (.div (← x.toBinary64) (← y.toBinary64))

/-- The remainder of two numbers that do not lie below zero. -/
def mod : Number → Number → Except Fault Number := lift Int.fmod .mod

/-- The remainder of the absolute values, with the other sign where the dividend lies below zero. -/
def rem (x y : Number) : Except Fault Number :=
  if y.isZero then .error .divisionByZero
  else do
    let r ← mod x.abs y.abs
    return if x.isNegative then r.neg else r

/-- The remainder of two integers is that of the quotient toward zero, in all four cases of their signs. -/
theorem rem_int {a b : Int} (hb : b ≠ 0) : rem (int a) (int b) = .ok (int (a.tmod b)) := by
  have hzero : (int b).isZero = false := decide_eq_false hb
  have hmod : mod (int a).abs (int b).abs = .ok (int (a.natAbs % b.natAbs : Nat)) :=
    congrArg (fun r => Except.ok (int r)) (Int.fmod_eq_emod_of_nonneg _ (Int.natCast_nonneg _))
  rw [rem, if_neg (ne_true_of_eq_false hzero), hmod]
  cases a with
  | ofNat m => cases b <;> rfl
  | negSucc m =>
    have hneg : (int (.negSucc m)).isNegative = true := decide_eq_true (Int.negSucc_lt_zero m)
    rw [hneg]
    cases b <;> rfl

/-- Where a number lies on the line: below, among or above the finite numbers, and there at how many units. -/
structure Place where
  /-- Minus one below the finite numbers, one above them, else zero. -/
  side : Int
  /-- The units of a finite number. -/
  units : Int
  deriving DecidableEq

namespace Place

/-- Whether a place lies before another. -/
def before (p q : Place) : Bool := p.side < q.side || (p.side = q.side && p.units < q.units)

end Place

/-- The place of a number; the number that is none has no place. -/
def place? : Number → Option Place
  | int n => some ⟨0, n * Binary64.unitsPerOne⟩
  | float .nan => none
  | float (.infinite negative) => some ⟨if negative then -1 else 1, 0⟩
  | float (.finite negative rank) => some ⟨0, Binary64.signed negative (Binary64.units rank)⟩

/-- Whether both numbers have a place and the places stand in a relation. -/
def placed (related : Place → Place → Bool) (x y : Number) : Bool :=
  match x.place?, y.place? with
  | some p, some q => related p q
  | _, _ => false

/-- Whether two numbers are equal in value. -/
def eq : Number → Number → Bool := placed fun p q => p = q

/-- Whether a number is less than another. -/
def lt : Number → Number → Bool := placed Place.before

/-- Whether a number is less than another or equal to it. -/
def le : Number → Number → Bool := placed fun p q => !q.before p

/-- The integer that a rule finds for the units of a number. An integer is its own. -/
def toInt (rule : Int → Int) : Number → Except Fault Int
  | int n => .ok n
  | float .nan => .error .nanToInteger
  | float (.infinite _) => .error .infinityToInteger
  | float (.finite negative rank) => .ok (rule (Binary64.signed negative (Binary64.units rank)))

/-- The largest integer that is not above the number. -/
def floor : Number → Except Fault Int := toInt Binary64.floorUnits

/-- The smallest integer that is not below the number. -/
def ceil : Number → Except Fault Int := toInt Binary64.ceilUnits

/-- The integer part, toward zero. -/
def truncate : Number → Except Fault Int := toInt Binary64.truncateUnits

/-- The floor of the binary64 sum of the number and one half. -/
def round (x : Number) : Except Fault Int := do floor (.float (.add (← x.toBinary64) .half))

/-- The square root, for numbers that are not below zero. -/
def sqrt (x : Number) : Except Fault Number := do
  let x ← x.toBinary64
  if x.isNegative then .error (.undefined .domain) else return float x.sqrt

/-- The power of two numbers, taken in binary64. -/
def pow (x y : Number) : Except Fault Number := do
  match (← x.toBinary64).pow (← y.toBinary64) with
  | .ok z => return float z
  | .error reason => .error (.undefined reason)

/-- The first of two numbers unless the second is less. -/
def min (x y : Number) : Number := if y.lt x then y else x

/-- The first of two numbers unless the second is greater. -/
def max (x y : Number) : Number := if x.lt y then y else x

end Number

end Stencil
