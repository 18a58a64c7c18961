import Stencil.Evaluation.Fault

/-!
# Calls of builtin functions

What each builtin function makes of its arguments. Mathematical functions take numbers and texts that spell numbers. A
function of a fixed count of arguments refuses any other count before it looks at them; then all arguments are read before
any is refused.
-/

namespace Stencil

namespace MathFunction

/-- The arguments of a mathematical function as numbers. -/
def numbers (f : MathFunction) (arguments : List Value) : Except Fault (List Number) := do
  let read ← Fault.ofDigits (arguments.mapM Value.asNumber?)
  (arguments.zip read).mapM fun
    | (_, some n) => .ok n
    | (v, none) => .error (.notNumber f v)

/-- A function of one number; those of more have no rule here. -/
def applyOne (f : MathFunction) (n : Number) : Except Fault Value :=
  match f with
  | abs => .ok (.number n.abs)
  | ceil => Value.int <$> Fault.ofNumber n.ceil
  | floor => Value.int <$> Fault.ofNumber n.floor
  | round => Value.int <$> Fault.ofNumber n.round
  | sqrt => Value.number <$> Fault.ofNumber n.sqrt
  | trunc => Value.int <$> Fault.ofNumber n.truncate
  | max | min | pow => .error (.argumentCount (.math f))

/-- The choice of one of several arguments; a single one is refused. -/
def choose (f : MathFunction) (better : Number → Number → Number) (arguments : List Value) : Except Fault Value := do
  if arguments.isEmpty then .error (.noArguments f)
  else
    match ← numbers f arguments with
    | n :: m :: rest => return .number ((m :: rest).foldl better n)
    | _ => .error (.argumentCount (.math f))

/-- What a mathematical function makes of its arguments. -/
def apply (f : MathFunction) (arguments : List Value) : Except Fault Value :=
  match f, arguments with
  | max, arguments => choose max .max arguments
  | min, arguments => choose min .min arguments
  | pow, [x, y] => do
    match ← numbers pow [x, y] with
    | [m, n] => Value.number <$> Fault.ofNumber (m.pow n)
    | _ => .error (.argumentCount (.math pow))
  | pow, _ => .error (.argumentCount (.math pow))
  | f, [x] => do
    match ← numbers f [x] with
    | [n] => f.applyOne n
    | _ => .error (.argumentCount (.math f))
  | f, _ => .error (.argumentCount (.math f))

end MathFunction

namespace Value

/-- The leading integer of the value's text. -/
def parseInt [World] (v : Value) : Except Fault Int := do
  match ← Fault.ofObstacle v.leadingInteger? with
  | some n => return n
  | none => .error (.noLeadingInteger v)

/-- The value as a number: truth values are zero and one, and a text must spell one. -/
def toNumber (v : Value) : Except Fault Number :=
  match v with
  | bool b => .ok (.int (if b then 1 else 0))
  | v => do
    match ← Fault.ofDigits v.asNumber? with
    | some n => return n
    | none => .error (.notConvertible v)

end Value

/-- What a builtin function makes of its arguments. -/
def Builtin.apply [World] : Builtin → List Value → Except Fault Value
  | parseInt, [v] | integerParseInt, [v] => Value.int <$> v.parseInt
  | number, [v] => Value.number <$> v.toNumber
  | math f, arguments => f.apply arguments
  | f, _ => .error (.argumentCount f)

end Stencil
