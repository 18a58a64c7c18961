import Stencil.Expr.Parser

/-!
# What a function of the parser comes to

The functions of the parser hand on a proof with the lexemes they leave over. Their outcome is the same without the proof
(`outcome`), and the equations of the functions are restated for outcomes, so that no later proof sees a bound.
-/

namespace Stencil.Expr

/-- What was read and the lexemes left over, without the proof that they are fewer. -/
def outcome {α : Type} {n : Nat} (r : Except ParseError (Parsed α n)) : Except ParseError (α × List Lexeme) :=
  r.map fun p => (p.value, p.rest)

variable {α β : Type} {m n : Nat}

/-- What is left over is shorter than the bound. -/
theorem length_lt_of_outcome {r : Except ParseError (Parsed α n)} {value : α} {rest : List Lexeme}
    (h : outcome r = .ok (value, rest)) : rest.length < n := by
  cases r with
  | error e => cases h
  | ok p =>
    cases h
    exact p.shorter

/-- The outcome of one part after another is that of their outcomes. -/
theorem outcome_bind {r : Except ParseError (Parsed α m)} {next : Parsed α m → Except ParseError (Parsed β n)}
    {after : α × List Lexeme → Except ParseError (β × List Lexeme)}
    (h : ∀ p, outcome (next p) = after (p.value, p.rest)) : outcome (r >>= next) = outcome r >>= after := by
  cases r with
  | error e => rfl
  | ok p => exact h p

/-- A larger bound does not change the outcome. -/
theorem outcome_widen {r : Except ParseError (Parsed α m)} (h : m ≤ n) :
    outcome (r >>= fun p => pure (p.widen h)) = outcome r := by
  cases r <;> rfl

variable (stop : Nat)

theorem outcome_level_zero (ts : List Lexeme) : outcome (level stop 0 ts) = outcome (operand stop ts) := by
  rw [level]

theorem outcome_level_succ (k : Nat) (ts : List Lexeme) :
    outcome (level stop (k + 1) ts) =
      outcome (level stop k ts) >>= fun head => outcome (chain stop k head.1 head.2) := by
  rw [level]
  exact outcome_bind fun head => outcome_widen _

theorem outcome_chain_nil (k : Nat) (left : Expr) : outcome (chain stop k left []) = .ok (left, []) := by
  rw [chain]
  rfl

theorem outcome_chain_none {k : Nat} {t : Lexeme} (h : t.infixOp? (k + 1) = none) (left : Expr) (rest : List Lexeme) :
    outcome (chain stop k left (t :: rest)) = .ok (left, t :: rest) := by
  rw [chain, h]
  rfl

/-- An expression goes on after an operator of its level. -/
theorem outcome_chain_some {k : Nat} {t : Lexeme} {op : InfixOp} (h : t.infixOp? (k + 1) = some op) (left : Expr)
    (rest : List Lexeme) :
    outcome (chain stop k left (t :: rest)) =
      outcome (level stop k rest) >>= fun right => outcome (chain stop k (op.node left right.1) right.2) := by
  rw [chain, h]
  exact outcome_bind fun right => outcome_widen _

theorem outcome_operand_nil : outcome (operand stop []) = .error .unexpectedEnd := by
  rw [operand]
  rfl

/-- An operator in front of an operand. -/
theorem outcome_operand_some {t : Lexeme} {op : UnaryOp} (h : t.unaryOp? = some op) (rest : List Lexeme) :
    outcome (operand stop (t :: rest)) =
      outcome (operand stop rest) >>= fun inner => .ok (.unary op inner.1, inner.2) := by
  rw [operand, h]
  exact outcome_bind fun inner => rfl

/-- An operand without an operator in front of it. -/
theorem outcome_operand_none {t : Lexeme} (h : t.unaryOp? = none) (rest : List Lexeme) :
    outcome (operand stop (t :: rest)) =
      outcome (primary stop (t :: rest)) >>= fun head => outcome (suffixes stop head.1 head.2) := by
  rw [operand, h]
  exact outcome_bind fun head => outcome_widen _

theorem outcome_suffixes_nil (target : Expr) : outcome (suffixes stop target []) = .ok (target, []) := by
  rw [suffixes]
  rfl

/-- A target ends before a lexeme that is neither a point nor an opening parenthesis. -/
theorem outcome_suffixes_other {t : Lexeme} (hp : t.isSymbol "." = false) (ho : t.isSymbol "(" = false) (target : Expr)
    (rest : List Lexeme) : outcome (suffixes stop target (t :: rest)) = .ok (target, t :: rest) := by
  rw [suffixes.eq_def]
  simp only [hp, ho, Bool.false_eq_true, if_false]
  rfl

/-- A member access after a target, if a name follows the point. -/
theorem outcome_suffixes_member {t : Lexeme} (hp : t.isSymbol ".") (target : Expr) (rest : List Lexeme) :
    outcome (suffixes stop target (t :: rest)) =
      match rest with
      | [] => .error (.memberName stop)
      | key :: after =>
        if key.kind = .name then outcome (suffixes stop (.member target key.text) after)
        else .error (.memberName key.position) := by
  cases rest with
  | nil =>
    rw [suffixes, if_pos hp]
    rfl
  | cons key after =>
    rw [suffixes, if_pos hp]
    by_cases hk : key.kind = .name
    · simp only [if_pos hk]
      exact outcome_widen _
    · simp only [if_neg hk]
      rfl

/-- A call after a target. -/
theorem outcome_suffixes_call {t : Lexeme} (hp : t.isSymbol "." = false) (ho : t.isSymbol "(") (target : Expr)
    (rest : List Lexeme) :
    outcome (suffixes stop target (t :: rest)) =
      outcome (arguments stop rest) >>= fun given => outcome (suffixes stop (.call target given.1) given.2) := by
  rw [suffixes.eq_def]
  simp only [hp, ho, Bool.false_eq_true, if_false, if_true]
  exact outcome_bind fun given => outcome_widen _

theorem outcome_arguments_nil : outcome (arguments stop []) = .error .unexpectedEnd := by
  rw [arguments]
  rfl

theorem outcome_arguments_close {t : Lexeme} (h : t.isSymbol ")") (rest : List Lexeme) :
    outcome (arguments stop (t :: rest)) = .ok ([], rest) := by
  rw [arguments, if_pos h]
  rfl

/-- At least one argument. -/
theorem outcome_arguments_other {t : Lexeme} (h : t.isSymbol ")" = false) (rest : List Lexeme) :
    outcome (arguments stop (t :: rest)) = outcome (level stop 6 (t :: rest)) >>= fun head =>
      outcome (moreArguments stop head.2) >>= fun others => .ok (head.1 :: others.1, others.2) := by
  rw [arguments, if_neg (Bool.eq_false_iff.1 h)]
  exact outcome_bind fun head => outcome_bind fun others => rfl

theorem outcome_moreArguments_nil : outcome (moreArguments stop []) = .error (.unclosed none stop) := by
  rw [moreArguments]
  rfl

/-- A further argument. -/
theorem outcome_moreArguments_comma {t : Lexeme} (h : t.isSymbol ",") (rest : List Lexeme) :
    outcome (moreArguments stop (t :: rest)) = outcome (level stop 6 rest) >>= fun next =>
      outcome (moreArguments stop next.2) >>= fun others => .ok (next.1 :: others.1, others.2) := by
  rw [moreArguments, if_pos h]
  exact outcome_bind fun next => outcome_bind fun others => rfl

/-- No further argument. -/
theorem outcome_moreArguments_other {t : Lexeme} (h : t.isSymbol "," = false) (rest : List Lexeme) :
    outcome (moreArguments stop (t :: rest)) =
      outcome (closing stop (t :: rest)) >>= fun close => .ok ([], close.2) := by
  rw [moreArguments, if_neg (Bool.eq_false_iff.1 h)]
  exact outcome_bind fun close => rfl

theorem outcome_closing {t : Lexeme} (h : t.isSymbol ")") (rest : List Lexeme) :
    outcome (closing stop (t :: rest)) = .ok ((), rest) := by
  rw [closing, if_pos h]
  rfl

theorem outcome_primary_nil : outcome (primary stop []) = .error .unexpectedEnd := by
  rw [primary]
  rfl

/-- What starts with a lexeme that is no operator. -/
theorem outcome_primary (t : Lexeme) (rest : List Lexeme) :
    outcome (primary stop (t :: rest)) =
      match t.kind with
      | .number =>
        match readNumber t.text with
        | .ok n => .ok (.literal (.number n), rest)
        | .error e => .error (.tooManyDigits e)
      | .string => .ok (.literal (.text (unescape (t.text.drop 1).dropLast)), rest)
      | .var => .ok (.var (t.text.drop 1), rest)
      | .name => .ok (ofName t.text, rest)
      | .symbol =>
        if t.text = "(".toList then
          outcome (level stop 6 rest) >>= fun inner =>
            outcome (closing stop inner.2) >>= fun close => .ok (inner.1, close.2)
        else .error (.unexpected t.text t.position)
      | .finish => .error .unexpectedEnd := by
  rw [primary]
  cases t.kind with
  | number => cases readNumber t.text <;> rfl
  | symbol =>
    by_cases ht : t.text = "(".toList
    · simp only [if_pos ht]
      exact outcome_bind fun inner => outcome_bind fun close => rfl
    · simp only [if_neg ht]
      rfl
  | _ => rfl

end Stencil.Expr
