import Stencil.Expr.Lexeme

/-!
# Reading expressions

A recursive descent over the lexemes. Operands of a level are read at the next tighter one and chained to the left; below
all levels come the operators in front of an operand, which nest to the right, then member accesses and calls, which follow
their target, then literals, references, names and parentheses. Every function hands on the lexemes it left over together
with the proof that it used some up, and on that the recursion rests. How deep an expression is nested does not matter here; a
machine that allows a thousand nested calls has too few for about 76 nested parentheses, and fails.
-/

namespace Stencil.Expr

/-- What was read, and the lexemes left over: fewer than `bound`. -/
structure Parsed (α : Type) (bound : Nat) where
  /-- What was read. -/
  value : α
  /-- The lexemes after it. -/
  rest : List Lexeme
  /-- Fewer lexemes are left over than the bound. -/
  shorter : rest.length < bound

/-- The same under a larger bound. -/
def Parsed.widen {α : Type} {a b : Nat} (p : Parsed α a) (h : a ≤ b) : Parsed α b :=
  ⟨p.value, p.rest, Nat.lt_of_lt_of_le p.shorter h⟩

/-- A quoted body with each backslash and the character after it replaced by what they stand for. -/
def unescape : Text → Text
  | '\\' :: c :: rest =>
    (if c = 'n' then '\n' else if c = 't' then '\t' else if c = 'r' then '\r' else c) :: unescape rest
  | c :: rest => c :: unescape rest
  | [] => []

/-- The number of a numeral lexeme. -/
def readNumber (text : Text) : Except TooManyDigits Number :=
  let numeral : Numeral :=
    match Text.splitAtFirst? (· = '.') text with
    | none => ⟨text, none⟩
    | some (whole, fraction) => ⟨whole, some fraction⟩
  numeral.toNumber false

/-- The expression of a name: three names are literals. -/
def ofName (text : Text) : Expr :=
  if text = "true".toList then .literal (.bool true)
  else if text = "false".toList then .literal (.bool false)
  else if text = "null".toList then .literal .null
  else .name text

/-- The lexemes after a closing parenthesis. At the end, the error is placed at `stop`. -/
def closing (stop : Nat) : (ts : List Lexeme) → Except ParseError (Parsed Unit ts.length)
  | [] => .error (.unclosed none stop)
  | t :: rest =>
    if t.isSymbol ")".toList then .ok ⟨(), rest, Nat.lt_succ_self _⟩ else .error (.unclosed (some t.text) t.position)

section

variable (stop : Nat)

mutual

/-- An expression of infix operators up to a level. -/
def level (k : Nat) (ts : List Lexeme) : Except ParseError (Parsed Expr ts.length) :=
  match k with
  | 0 => operand ts
  | k + 1 => do
    let head ← level k ts
    return (← chain k head.value head.rest).widen head.shorter
termination_by (ts.length, k + 2)
decreasing_by
  · decreasing_tactic
  · decreasing_tactic
  · have := head.shorter
    decreasing_tactic

/-- An expression that goes on with operators just looser than level `k`. -/
def chain (k : Nat) (left : Expr) (ts : List Lexeme) : Except ParseError (Parsed Expr (ts.length + 1)) :=
  match ts with
  | [] => .ok ⟨left, [], Nat.lt_succ_self _⟩
  | t :: rest =>
    match t.infixOp? (k + 1) with
    | none => .ok ⟨left, t :: rest, Nat.lt_succ_self _⟩
    | some op => do
      let right ← level k rest
      return (← chain k (op.node left right.value) right.rest).widen (Nat.le_succ_of_le (Nat.lt_succ_of_lt right.shorter))
termination_by (ts.length, 0)
decreasing_by
  · decreasing_tactic
  · have := right.shorter
    simp_wf
    omega

/-- An operand with the operators in front of it. -/
def operand (ts : List Lexeme) : Except ParseError (Parsed Expr ts.length) :=
  match ts with
  | [] => .error .unexpectedEnd
  | t :: rest =>
    match t.unaryOp? with
    | some op => do
      let inner ← operand rest
      return ⟨.unary op inner.value, inner.rest, Nat.lt_succ_of_lt inner.shorter⟩
    | none => do
      let head ← primary (t :: rest)
      return (← suffixes head.value head.rest).widen head.shorter
termination_by (ts.length, 1)
decreasing_by
  · decreasing_tactic
  · decreasing_tactic
  · have := head.shorter
    decreasing_tactic

/-- A target with the member accesses and calls after it. -/
def suffixes (target : Expr) (ts : List Lexeme) : Except ParseError (Parsed Expr (ts.length + 1)) :=
  match ts with
  | [] => .ok ⟨target, [], Nat.lt_succ_self _⟩
  | t :: rest =>
    if t.isSymbol ".".toList then
      match rest with
      | [] => .error (.memberName stop)
      | key :: after =>
        if key.kind = .name then do
          return (← suffixes (.member target key.text) after).widen (Nat.le_add_right _ 2)
        else .error (.memberName key.position)
    else if t.isSymbol "(".toList then do
      let given ← arguments rest
      return (← suffixes (.call target given.value) given.rest).widen (Nat.le_succ_of_le (Nat.lt_succ_of_lt given.shorter))
    else .ok ⟨target, t :: rest, Nat.lt_succ_self _⟩
termination_by (ts.length, 0)
decreasing_by
  · decreasing_tactic
  · decreasing_tactic
  · have := given.shorter
    simp_wf
    omega

/-- The arguments of a call after its opening parenthesis, with the closing one. -/
def arguments (ts : List Lexeme) : Except ParseError (Parsed (List Expr) ts.length) :=
  match ts with
  | [] => .error .unexpectedEnd
  | t :: rest =>
    if t.isSymbol ")".toList then .ok ⟨[], rest, Nat.lt_succ_self _⟩
    else do
      let head ← level InfixOp.loosest (t :: rest)
      let others ← moreArguments head.rest
      return ⟨head.value :: others.value, others.rest, Nat.lt_trans others.shorter head.shorter⟩
termination_by (ts.length, InfixOp.loosest + 3)
decreasing_by
  · decreasing_tactic
  · have := head.shorter
    decreasing_tactic

/-- The arguments after the first one, with the closing parenthesis. -/
def moreArguments (ts : List Lexeme) : Except ParseError (Parsed (List Expr) ts.length) :=
  match ts with
  | [] => .error (.unclosed none stop)
  | t :: rest =>
    if t.isSymbol ",".toList then do
      let next ← level InfixOp.loosest rest
      let others ← moreArguments next.rest
      return ⟨next.value :: others.value, others.rest, Nat.lt_succ_of_lt (Nat.lt_trans others.shorter next.shorter)⟩
    else do
      let close ← closing stop (t :: rest)
      return ⟨[], close.rest, close.shorter⟩
termination_by (ts.length, 0)
decreasing_by
  · decreasing_tactic
  · have := next.shorter
    simp_wf
    omega

/-- A literal, a reference, a name or an expression in parentheses. -/
def primary (ts : List Lexeme) : Except ParseError (Parsed Expr ts.length) :=
  match ts with
  | [] => .error .unexpectedEnd
  | t :: rest =>
    match t.kind with
    | .number =>
      match readNumber t.text with
      | .ok n => .ok ⟨.literal (.number n), rest, Nat.lt_succ_self _⟩
      | .error e => .error (.tooManyDigits e)
    | .string => .ok ⟨.literal (.text (unescape (t.text.drop 1).dropLast)), rest, Nat.lt_succ_self _⟩
    | .var => .ok ⟨.var (t.text.drop 1), rest, Nat.lt_succ_self _⟩
    | .name => .ok ⟨ofName t.text, rest, Nat.lt_succ_self _⟩
    | .symbol =>
      if t.text = "(".toList then do
        let inner ← level InfixOp.loosest rest
        let close ← closing stop inner.rest
        return ⟨inner.value, close.rest, Nat.lt_succ_of_lt (Nat.lt_trans close.shorter inner.shorter)⟩
      else .error (.unexpected t.text t.position)
    | .finish => .error .unexpectedEnd
termination_by (ts.length, 0)

end

end

/-- The expression that a text spells. -/
def parse (expression : Text) : Except ParseError Expr := do
  match ← Lexeme.scan 0 expression with
  | [] => .error .empty
  | lexemes =>
    let whole ← level expression.length InfixOp.loosest lexemes
    match whole.rest with
    | [] => return whole.value
    | t :: _ => .error (.unexpected t.text t.position)

end Stencil.Expr
