import Stencil.World

/-!
# Values as text

How a value is written into output, and how it is shown inside messages and containers. An integer may have too many digits for
that, and an object may fail.
-/

namespace Stencil

/-- What keeps a value from being written or compared. -/
inductive Obstacle
  /-- An integer is too long to be read or written. -/
  | tooManyDigits (e : TooManyDigits)
  /-- An object fails. -/
  | object (e : ObjectError)

/-- An obstacle in words. -/
def Obstacle.message : Obstacle → Text
  | tooManyDigits e => e.message
  | object e => e.message

namespace Obstacle

/-- A reading or writing of integers, where there are other obstacles. -/
def ofDigits {α : Type} : Except TooManyDigits α → Except Obstacle α := Except.mapError tooManyDigits

/-- What an object does, where there are other obstacles. -/
def ofObject {α : Type} : Except ObjectError α → Except Obstacle α := Except.mapError object

end Obstacle

variable [World]

/-- A builtin function as it is shown: its name and its code. -/
def Builtin.shown (f : Builtin) : Text :=
  "BuiltinFunction(name=" ++ Text.quoted f.name ++ ", fn=" ++ World.code f ++ ")"

namespace Value

mutual

/-- A value as it is shown inside messages and containers. -/
def shown : Value → Except Obstacle Text
  | null => .ok "None".toList
  | bool b => .ok (if b then "True" else "False").toList
  | number (.int n) => Obstacle.ofDigits (writeInteger n)
  | number (.float x) => .ok x.toText
  | text t => .ok (Text.quoted t)
  | list items => do return "[" ++ Text.joined ", ".toList (← shownItems items) ++ "]"
  | mapping names values => do
    let entries ← (List.finRange names.count).mapM fun i => do
      return Text.quoted (names.get i) ++ ": " ++ (← shownItem (values i))
    return "\x7b" ++ Text.joined ", ".toList entries ++ "\x7d"
  | moment m => .ok m.shown
  | host i => Obstacle.ofObject (World.shown i)
  | library l => .ok l.shown
  | builtin f => .ok f.shown

/-- An item of a container as it is shown. -/
def shownItem : Nat × Value → Except Obstacle Text
  | (_, v) => shown v

/-- The items of a list as they are shown. -/
def shownItems : List (Nat × Value) → Except Obstacle (List Text)
  | [] => .ok []
  | item :: rest => do return (← shownItem item) :: (← shownItems rest)

end

/-- A value as it is written into output. Null is empty, truth values are in lower case, and a binary64 number that is an
integer has no fraction. -/
def toText : Value → Except Obstacle Text
  | null => .ok []
  | bool b => .ok (if b then "true" else "false").toList
  | number (.float x) =>
    match x.toUnits? with
    | some u => if x.isInteger then Obstacle.ofDigits (writeInteger (Binary64.truncateUnits u)) else .ok x.toText
    | none => .ok x.toText
  | text t => .ok t
  | moment m => .ok m.toText
  | host i => Obstacle.ofObject (World.text i)
  | library l => .ok l.name
  | builtin f => .ok f.toText
  | v => v.shown

/-- The leading integer of the value's text, after blanks and an optional sign. -/
def leadingInteger? (v : Value) : Except Obstacle (Option Int) := do
  let t := Text.trimLeft (← v.toText)
  let (negative, unsigned) :=
    match t with
    | '-' :: rest => (true, rest)
    | '+' :: rest => (false, rest)
    | _ => (false, t)
  match unsigned.takeWhile Text.isDigit with
  | [] => return none
  | digits => return some (← Obstacle.ofDigits (readInteger negative digits))

end Value

end Stencil
