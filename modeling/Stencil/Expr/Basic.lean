import Stencil.Number.Basic

/-!
# Expressions

The trees of conditions and assigned values, and the operators with their symbols and levels. A level is the looseness of an
infix operator: level 1 binds tightest, level 6 loosest, and all operators of a level group to the left.
-/

namespace Stencil

/-- A value written down in an expression. -/
inductive Literal
  | null
  | bool (b : Bool)
  | number (n : Number)
  | text (t : Text)
  deriving DecidableEq

/-- An operator in front of its operand. -/
inductive UnaryOp
  | negate | not
  deriving DecidableEq

/-- An operator that works on two values. -/
inductive BinaryOp
  | equal | notEqual | less | lessEqual | greater | greaterEqual | add | subtract | multiply | divide | remainder
  deriving DecidableEq

/-- An operator that may leave its second operand alone. -/
inductive LogicalOp
  | and | or
  deriving DecidableEq

/-- An expression. -/
inductive Expr
  | literal (value : Literal)
  /-- A reference to an entry of the context. -/
  | var (name : Text)
  /-- A bare name, for a builtin. -/
  | name (name : Text)
  | member (target : Expr) (key : Text)
  | call (callee : Expr) (arguments : List Expr)
  | unary (op : UnaryOp) (operand : Expr)
  | binary (op : BinaryOp) (left right : Expr)
  | logical (op : LogicalOp) (left right : Expr)

/-- The symbol of an operator in front of its operand. -/
def UnaryOp.symbol : UnaryOp → Text
  | negate => "-".toList
  | not => "!".toList

/-- The symbol of an operator on two values. -/
def BinaryOp.symbol : BinaryOp → Text
  | equal => "==".toList
  | notEqual => "!=".toList
  | less => "<".toList
  | lessEqual => "<=".toList
  | greater => ">".toList
  | greaterEqual => ">=".toList
  | add => "+".toList
  | subtract => "-".toList
  | multiply => "*".toList
  | divide => "/".toList
  | remainder => "%".toList

/-- The symbol of a logical operator. -/
def LogicalOp.symbol : LogicalOp → Text
  | and => "&&".toList
  | or => "||".toList

/-- An operator between two operands. -/
inductive InfixOp
  | binary (op : BinaryOp)
  | logical (op : LogicalOp)
  deriving DecidableEq

namespace InfixOp

/-- All operators that stand between two operands. -/
def all : List InfixOp :=
  [.binary .equal, .binary .notEqual, .binary .less, .binary .lessEqual, .binary .greater, .binary .greaterEqual,
    .binary .add, .binary .subtract, .binary .multiply, .binary .divide, .binary .remainder, .logical .and, .logical .or]

/-- The symbol of an operator. -/
def symbol : InfixOp → Text
  | binary op => op.symbol
  | logical op => op.symbol

/-- The level of an operator. -/
def level : InfixOp → Nat
  | binary .multiply | binary .divide | binary .remainder => 1
  | binary .add | binary .subtract => 2
  | binary .less | binary .lessEqual | binary .greater | binary .greaterEqual => 3
  | binary .equal | binary .notEqual => 4
  | logical .and => 5
  | logical .or => 6

/-- The level of the loosest operators, and so of a whole expression. -/
def loosest : Nat := 6

/-- The operator with a symbol. -/
def ofSymbol? (symbol : Text) : Option InfixOp := all.find? fun op => op.symbol = symbol

/-- The expression that an operator makes of its operands. -/
def node : InfixOp → Expr → Expr → Expr
  | binary op => .binary op
  | logical op => .logical op

end InfixOp

/-- The operator in front of an operand with a symbol. -/
def UnaryOp.ofSymbol? (symbol : Text) : Option UnaryOp := [negate, not].find? fun op => op.symbol = symbol

end Stencil
