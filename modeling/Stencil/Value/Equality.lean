import Stencil.Value.Writing

/-!
# Equality and order of values

Two equalities. The plain one compares values of one kind, and containers item by item; there truth values count as the
numbers zero and one. An object of the caller's is asked whether it equals another value, and its answer is what the comparison
gives, whatever it is. The loose one, which expressions use, tells truth values from numbers and lets a number equal a text that
spells it. The order relates two texts by their code points and otherwise two values that are or spell numbers.
-/

namespace Stencil

namespace Value

/-- The number that a number or a truth value counts as. -/
def asCount? : Value → Option Number
  | bool b => some (.int (if b then 1 else 0))
  | number n => some n
  | _ => none

/-- Plain equality of values that are neither containers nor objects. -/
def alike : Value → Value → Bool
  | null, null => true
  | text s, text t => s = t
  | moment m, moment n => m.same n
  | library l, library m => l = m
  | builtin f, builtin g => f = g
  | v, w =>
    match v.asCount?, w.asCount? with
    | some m, some n => m.eq n
    | _, _ => false

/-- Whether two items of containers are one object. An object of the caller's has its identity wherever it stands. -/
def isSame : Nat × Value → Nat × Value → Bool
  | (_, host i), (_, host j) => i = j
  | (i, _), (j, _) => i = j

section

variable [World]

/-- Whether a value counts as true where an answer is asked for. Other than in a condition, empty containers do not, and an object
decides for itself. -/
def truth : Value → Except ObjectError Bool
  | null => .ok false
  | bool b => .ok b
  | number n => .ok !n.isZero
  | text t => .ok !t.isEmpty
  | list items => .ok !items.isEmpty
  | mapping names _ => .ok (names.count ≠ 0)
  | host i => World.truth i
  | moment _ | library _ | builtin _ => .ok true

/-- What two objects answer that are asked one after the other: the second one is asked where the first has no answer, and if
neither has one, the objects are equal if they are one. -/
def askInTurn (first second : Nat) : Except ObjectError Value := do
  match ← World.equals first (host second) with
  | some answer => return answer
  | none => return (← World.equals second (host first)).getD (bool (first = second))

/-- What two objects answer if they are compared. The first one is asked first, unless the other one's class is a special case of
its own. -/
def compareObjects (i j : Nat) : Except ObjectError Value :=
  if World.refines j i then askInTurn j i else askInTurn i j

/-- What an object answers if it is compared with a value of another kind. Without an answer they are not equal. -/
def compareObject (i : Nat) (v : Value) : Except ObjectError Value := do
  return (← World.equals i v).getD (bool false)

mutual

/-- What comparing two values gives. -/
def compared : Value → Value → Except ObjectError Value
  | host i, host j => compareObjects i j
  | host i, w => compareObject i w
  | v, host j => compareObject j v
  | list items, list others =>
    if items.length = others.length then bool <$> sameItems items others else .ok (bool false)
  | mapping names values, mapping others values' =>
    if names.count = others.count then
      bool <$> (List.finRange names.count).allM fun i =>
        (others.find? (names.get i)).elim (.ok false) fun j => sameItem (values i) (values' j)
    else .ok (bool false)
  | v, w => .ok (bool (alike v w))

/-- Whether two items of containers are equal. One object equals itself there, whatever it would answer. -/
def sameItem : Nat × Value → Nat × Value → Except ObjectError Bool
  | (i, v), (j, w) => if isSame (i, v) (j, w) then .ok true else do (← compared v w).truth

/-- Whether two lists of items are equal item by item, up to the first that are not. -/
def sameItems : List (Nat × Value) → List (Nat × Value) → Except ObjectError Bool
  | item :: rest, other :: others => do if ← sameItem item other then sameItems rest others else return false
  | _, _ => .ok true

end

/-- What the equality of expressions gives. -/
def looselyEquals : Value → Value → Except Obstacle Value
  | bool a, bool b => .ok (bool (a = b))
  | bool _, _ | _, bool _ => .ok (bool false)
  | number m, text t => do
    match ← Obstacle.ofDigits (Number.ofText? t) with
    | some n => return bool (m.eq n)
    | none => return bool false
  | text s, number n => do
    match ← Obstacle.ofDigits (Number.ofText? s) with
    | some m => return bool (m.eq n)
    | none => return bool false
  | v, w => Obstacle.ofObject (compared v w)

end

/-- Whether two values stand in an order: two texts as texts, else two values that are or spell numbers. Values without an
order stand in none. -/
def ordered (texts : Text → Text → Bool) (numbers : Number → Number → Bool) (v w : Value) :
    Except TooManyDigits Bool :=
  match v, w with
  | text s, text t => .ok (texts s t)
  | v, w => do
    match ← v.asNumber?, ← w.asNumber? with
    | some m, some n => return numbers m n
    | _, _ => return false

end Value

end Stencil
