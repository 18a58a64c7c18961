import Stencil.Evaluation.Call
import Stencil.Evaluation.Operator
import Stencil.Expr.Parser

/-!
# Evaluation

The value of an expression against the entries of a context. References and members that spell numbers are read as numbers;
a missing one is null. Bare names reach the builtins and nothing else. How deep an expression may be nested is not limited here,
as it is where the evaluation has only so much stack.
-/

namespace Stencil

/-- A literal as a value. -/
def Literal.toValue : Literal → Value
  | null => .null
  | bool b => .bool b
  | number n => .number n
  | text t => .text t

/-- The builtin that a bare name stands for. -/
def Value.ofGlobal? (name : Text) : Option Value :=
  if name = Library.math.name then some (.library .math)
  else if name = Builtin.number.name then some (.builtin .number)
  else if name = Builtin.parseInt.name then some (.builtin .parseInt)
  else none

/-- The value under a name with numbers read from texts, or null. -/
def Value.lookup (name : Text) (entries : Entries Value) : Except Fault Value :=
  Fault.ofDigits ((Entries.get? name entries).getD .null).coerced

/-- The member of a value. An object of the caller's has members if it is a mapping. -/
def Value.member [World] (target : Value) (key : Text) : Except Fault Value :=
  match target with
  | library l =>
    match l.member? key with
    | some f => .ok (.builtin f)
    | none => .error (.noMember l key)
  | mapping names values => lookup key (entries names values)
  | host i =>
    match World.get? i with
    | some get => do Fault.ofDigits (← Fault.ofObject (get key)).coerced
    | none => .error (.unreadable key (host i))
  | target => .error (.unreadable key target)

/-- The value of a call. -/
def Value.call [World] (callee : Value) (arguments : List Value) : Except Fault Value :=
  match callee with
  | builtin f => f.apply arguments
  | callee => .error (.notCallable callee)

namespace Expr

variable [World] (context : Entries Value)

mutual

/-- The value of an expression. -/
def eval : Expr → Except Fault Value
  | literal value => .ok value.toValue
  | var key => Value.lookup key context
  | name key =>
    match Value.ofGlobal? key with
    | some v => .ok v
    | none => .error (.unknownName key)
  | member target key => do (← eval target).member key
  | call callee arguments => do
    let callee ← eval callee
    callee.call (← evalAll arguments)
  | unary op operand => do op.apply (← eval operand)
  | binary op left right => do
    let left ← eval left
    op.apply left (← eval right)
  | logical .and left right => do
    let left ← eval left
    if left.truthy then eval right else return left
  | logical .or left right => do
    let left ← eval left
    if left.truthy then return left else eval right

/-- The values of expressions, one after another. -/
def evalAll : List Expr → Except Fault (List Value)
  | [] => .ok []
  | e :: rest => do
    let v ← eval e
    return v :: (← evalAll rest)

end

end Expr

/-- The value of an expression given as a text. -/
def evaluate [World] (context : Entries Value) (expression : Text) : Except Fault Value := do
  let e ← Except.mapError Fault.malformed (Expr.parse expression)
  e.eval context

end Stencil
