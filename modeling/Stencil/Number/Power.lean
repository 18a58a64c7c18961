import Stencil.Number.Binary64

/-!
# Powers

Raising one binary64 number to another. The cases with an infinite or undefined argument follow the standard's table; for
two finite arguments the power function of the machine is taken, and a result that is undefined or out of range is refused.
-/

namespace Stencil.Binary64

/-- Why a function of binary64 numbers has no result. -/
inductive Undefined
  /-- The arguments lie outside the domain of the function. -/
  | domain
  /-- The result is too large. -/
  | range
  deriving DecidableEq

/-- The value one. -/
def one : Binary64 := ofInt 1

/-- Whether a number is an odd integer. -/
def isOddInteger (x : Binary64) : Bool :=
  match x.toUnits? with
  | none => false
  | some u => u % unitsPerOne = 0 && (u / unitsPerOne) % 2 = 1

/-- Whether a magnitude is above one, at one or below it; `nan` counts as above. -/
def compareToOne (x : Binary64) : Ordering :=
  match x.toUnits? with
  | none => .gt
  | some u => compare u.natAbs unitsPerOne

/-- A power of finite numbers, as the machine computes it. -/
def finitePow (x y : Binary64) : Except Undefined Binary64 :=
  match ofBits (Float.pow (.ofBits x.toBits) (.ofBits y.toBits)).toBits with
  | nan => .error .domain
  | infinite _ => if x.isZero then .error .domain else .error .range
  | result => .ok result

/-- The power `x` to the `y`. Anything to the zero and one to anything are one. -/
def pow (x y : Binary64) : Except Undefined Binary64 :=
  match x, y with
  | nan, y => .ok (if y.isZero then one else nan)
  | x, nan => .ok (if x = one then one else nan)
  | infinite negative, y =>
    if y.isZero then .ok one
    else
      let sign := negative && y.isOddInteger
      .ok (if y.isNegative then ofRank sign 0 else infinite sign)
  | x, infinite negative =>
    match x.compareToOne with
    | .eq => .ok one
    | .gt => .ok (if negative then zero else infinite false)
    | .lt => .ok (if negative then infinite false else zero)
  | x, y => finitePow x y

end Stencil.Binary64
