import Stencil.Evaluation.Fault
import Stencil.Value.Equality

/-!
# Operators on values

What the operators make of their operands. Arithmetic works on numbers and texts that spell numbers, except that a sum with
a text joins the texts of both. Operands without an order compare as false. Equality gives whatever the comparison gives, which
may be any value where an object of the caller's answers it; inequality is always a truth value.
-/

namespace Stencil

/-- The operand of an arithmetic operator as a number. -/
def Value.operand (symbol : Text) (v : Value) : Except Fault Number := do
  match ← Fault.ofDigits v.asNumber? with
  | some n => return n
  | none => .error (.operand symbol v)

/-- The value of an operator in front of its operand. -/
def UnaryOp.apply (op : UnaryOp) (v : Value) : Except Fault Value :=
  match op with
  | not => .ok (.bool !v.truthy)
  | negate => do return .number (← v.operand op.symbol).neg

namespace BinaryOp

/-- The calculation of an arithmetic operator on two numbers. -/
def calculate (op : BinaryOp) (calculation : Number → Number → Except Number.Fault Number) (v w : Value) :
    Except Fault Value := do
  let m ← v.operand op.symbol
  let n ← w.operand op.symbol
  return .number (← Fault.ofNumber (calculation m n))

/-- The comparison of two values, by one relation of texts and the matching one of numbers. -/
def compare (texts : Text → Text → Bool) (numbers : Number → Number → Bool) (v w : Value) : Except Fault Value := do
  return .bool (← Fault.ofDigits (v.ordered texts numbers w))

/-- The value of an operator on two values. -/
def apply [World] (op : BinaryOp) (v w : Value) : Except Fault Value :=
  match op with
  | equal => Fault.ofObstacle (v.looselyEquals w)
  | notEqual => do
    let answer ← Fault.ofObstacle (v.looselyEquals w)
    return .bool !(← Fault.ofObject answer.truth)
  | less => compare Text.before Number.lt v w
  | lessEqual => compare (fun s t => !t.before s) Number.le v w
  | greater => compare (fun s t => t.before s) (fun m n => n.lt m) v w
  | greaterEqual => compare (fun s t => !s.before t) (fun m n => n.le m) v w
  | add =>
    if v.isText || w.isText then do return .text ((← Fault.ofObstacle v.toText) ++ (← Fault.ofObstacle w.toText))
    else calculate op Number.add v w
  | subtract => calculate op Number.sub v w
  | multiply => calculate op Number.mul v w
  | divide => calculate op Number.div v w
  | remainder => calculate op Number.rem v w

end BinaryOp

end Stencil
