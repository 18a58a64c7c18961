import Stencil.Expr.Parser

/-!
# The grammar of expressions

Which lexemes spell which expression, said by rules and without a parser:

    or             := and ( "||" and )*
    and            := equality ( "&&" equality )*
    equality       := relational ( ( "==" | "!=" ) relational )*
    relational     := additive ( ( "<" | "<=" | ">" | ">=" ) additive )*
    additive       := multiplicative ( ( "+" | "-" ) multiplicative )*
    multiplicative := unary ( ( "*" | "/" | "%" ) unary )*
    unary          := ( "-" | "!" ) unary | suffixed
    suffixed       := primary ( "." NAME | "(" args? ")" )*
    args           := or ( "," or )*
    primary        := VAR | NAME | NUMBER | STRING | "true" | "false" | "null" | "(" or ")"

The first six rules are one rule for each level of infix operators, from level 6 down to level 1, and `unary` is level 0. A
repetition that groups to the left is a rule that starts with its own phrase: `or := and | or "||" and`.
-/

namespace Stencil.Expr

/-- The infix operators of a level by their symbols. -/
def operators : Nat → List (Text × InfixOp)
  | 1 => [("*", .binary .multiply), ("/", .binary .divide), ("%", .binary .remainder)]
  | 2 => [("+", .binary .add), ("-", .binary .subtract)]
  | 3 => [("<", .binary .less), ("<=", .binary .lessEqual), (">", .binary .greater), (">=", .binary .greaterEqual)]
  | 4 => [("==", .binary .equal), ("!=", .binary .notEqual)]
  | 5 => [("&&", .logical .and)]
  | 6 => [("||", .logical .or)]
  | _ => []

/-- The operators in front of an operand by their symbols. -/
def signs : List (Text × UnaryOp) := [("-", .negate), ("!", .not)]

/-- The names that are literals. -/
def keywords : List (Text × Literal) := [("true", .bool true), ("false", .bool false), ("null", .null)]

/-- A phrase of the grammar, with what it stands for. -/
inductive Phrase
  /-- An expression of infix operators up to a level. -/
  | level (k : Nat) (e : Expr)
  /-- A primary with the member accesses and calls after it. -/
  | suffixed (e : Expr)
  | primary (e : Expr)
  /-- The arguments of a call, if there are any. -/
  | arguments (es : List Expr)
  /-- The arguments after the first one, each with the comma before it. -/
  | others (es : List Expr)

/-- `Derives phrase ts`: the lexemes spell the phrase. -/
inductive Derives : Phrase → List Lexeme → Prop
  | number {l : Lexeme} {n : Number} : l.kind = .number → readNumber l.text = .ok n →
      Derives (.primary (.literal (.number n))) [l]
  /-- The quotes around a string are dropped, and the backslashes in it are resolved. -/
  | string {l : Lexeme} : l.kind = .string →
      Derives (.primary (.literal (.text (unescape (l.text.drop 1).dropLast)))) [l]
  /-- The dollar sign of a reference is dropped. -/
  | var {l : Lexeme} : l.kind = .var → Derives (.primary (.var (l.text.drop 1))) [l]
  | keyword {l : Lexeme} {value : Literal} : l.kind = .name → (l.text, value) ∈ keywords →
      Derives (.primary (.literal value)) [l]
  | name {l : Lexeme} : l.kind = .name → (∀ value, (l.text, value) ∉ keywords) → Derives (.primary (.name l.text)) [l]
  | group {o c : Lexeme} {e : Expr} {ts : List Lexeme} : o.isSymbol "(" → Derives (.level 6 e) ts → c.isSymbol ")" →
      Derives (.primary e) (o :: (ts ++ [c]))
  | ofPrimary {e : Expr} {ts : List Lexeme} : Derives (.primary e) ts → Derives (.suffixed e) ts
  /-- The name of a member may be any name, also one that is a literal elsewhere. -/
  | member {e : Expr} {ts : List Lexeme} {point key : Lexeme} : Derives (.suffixed e) ts → point.isSymbol "." →
      key.kind = .name → Derives (.suffixed (.member e key.text)) (ts ++ [point, key])
  | call {e : Expr} {es : List Expr} {ts inner : List Lexeme} {o c : Lexeme} : Derives (.suffixed e) ts →
      o.isSymbol "(" → Derives (.arguments es) inner → c.isSymbol ")" →
      Derives (.suffixed (.call e es)) (ts ++ o :: (inner ++ [c]))
  | noArguments : Derives (.arguments []) []
  | someArguments {e : Expr} {es : List Expr} {ts after : List Lexeme} : Derives (.level 6 e) ts →
      Derives (.others es) after → Derives (.arguments (e :: es)) (ts ++ after)
  | noOthers : Derives (.others []) []
  | someOthers {e : Expr} {es : List Expr} {ts after : List Lexeme} {comma : Lexeme} : comma.isSymbol "," →
      Derives (.level 6 e) ts → Derives (.others es) after → Derives (.others (e :: es)) (comma :: (ts ++ after))
  | ofSuffixed {e : Expr} {ts : List Lexeme} : Derives (.suffixed e) ts → Derives (.level 0 e) ts
  | signed {l : Lexeme} {op : UnaryOp} {e : Expr} {ts : List Lexeme} : l.kind = .symbol → (l.text, op) ∈ signs →
      Derives (.level 0 e) ts → Derives (.level 0 (.unary op e)) (l :: ts)
  | ofTighter {k : Nat} {e : Expr} {ts : List Lexeme} : Derives (.level k e) ts → Derives (.level (k + 1) e) ts
  | joined {k : Nat} {l : Lexeme} {op : InfixOp} {left right : Expr} {ts ts' : List Lexeme} :
      Derives (.level (k + 1) left) ts → l.kind = .symbol → (l.text, op) ∈ operators (k + 1) →
      Derives (.level k right) ts' → Derives (.level (k + 1) (op.node left right)) (ts ++ l :: ts')

/-- What has neither infix operators nor signs around it is an expression of the loosest level. -/
theorem Derives.expression {e : Expr} {ts : List Lexeme} (h : Derives (.suffixed e) ts) : Derives (.level 6 e) ts :=
  .ofTighter (.ofTighter (.ofTighter (.ofTighter (.ofTighter (.ofTighter (.ofSuffixed h))))))

/-! ## Operators and names as the parser knows them -/

/-- Every infix operator stands under its symbol at its level. -/
theorem mem_operators (op : InfixOp) : (op.symbol, op) ∈ operators op.level := by
  rcases op with op | op <;> cases op <;> decide

/-- An infix operator stands under its symbol and at its level only. -/
theorem eq_of_mem_operators {k : Nat} {symbol : Text} {op : InfixOp} (h : (symbol, op) ∈ operators k) :
    symbol = op.symbol ∧ k = op.level := by
  have hall : ∀ k < 7, ∀ entry ∈ operators k, entry.1 = entry.2.symbol ∧ k = entry.2.level := by decide
  by_cases hk : k < 7
  · exact hall k hk _ h
  · obtain ⟨n, rfl⟩ := Nat.exists_eq_add_of_le (Nat.le_of_not_lt hk)
    rw [Nat.add_comm] at h
    cases h

/-- The parser takes a lexeme for an infix operator of a level exactly if the grammar does. -/
theorem infixOp?_eq_some_iff {l : Lexeme} {k : Nat} {op : InfixOp} :
    l.infixOp? k = some op ↔ l.kind = .symbol ∧ (l.text, op) ∈ operators k := by
  unfold Lexeme.infixOp?
  by_cases hl : l.kind = .symbol
  · rw [if_pos hl, Option.filter_eq_some_iff, decide_eq_true_iff]
    constructor
    · rintro ⟨hf, rfl⟩
      unfold InfixOp.ofSymbol? at hf
      have hs : op.symbol = l.text := by simpa using List.find?_some hf
      exact ⟨hl, hs ▸ mem_operators op⟩
    · rintro ⟨-, hm⟩
      obtain ⟨hs, rfl⟩ := eq_of_mem_operators hm
      refine ⟨?_, rfl⟩
      rw [hs]
      rcases op with op | op <;> cases op <;> rfl
  · rw [if_neg hl]
    exact ⟨nofun, fun h => absurd h.1 hl⟩

/-- A lexeme is an infix operator of one level only. -/
theorem infixOp?_inj {l : Lexeme} {j k : Nat} {a b : InfixOp} (ha : l.infixOp? j = some a)
    (hb : l.infixOp? k = some b) : j = k := by
  have hsymbol : ∀ a b : InfixOp, a.symbol = b.symbol → a.level = b.level := by
    intro a b h
    rcases a with a | a <;> rcases b with b | b <;> cases a <;> cases b <;> first | rfl | exact absurd h (by decide)
  obtain ⟨hsa, rfl⟩ := eq_of_mem_operators (infixOp?_eq_some_iff.1 ha).2
  obtain ⟨hsb, rfl⟩ := eq_of_mem_operators (infixOp?_eq_some_iff.1 hb).2
  exact hsymbol a b (hsa.symm.trans hsb)

/-- The parser takes a lexeme for an operator in front of an operand exactly if the grammar does. -/
theorem unaryOp?_eq_some_iff {l : Lexeme} {op : UnaryOp} :
    l.unaryOp? = some op ↔ l.kind = .symbol ∧ (l.text, op) ∈ signs := by
  unfold Lexeme.unaryOp?
  by_cases hl : l.kind = .symbol
  · rw [if_pos hl]
    constructor
    · intro hf
      unfold UnaryOp.ofSymbol? at hf
      have hs : op.symbol = l.text := by simpa using List.find?_some hf
      refine ⟨hl, hs ▸ ?_⟩
      cases op <;> decide
    · rintro ⟨-, hm⟩
      simp only [signs, List.mem_cons, Prod.mk.injEq, List.not_mem_nil, or_false] at hm
      rcases hm with ⟨hs, rfl⟩ | ⟨hs, rfl⟩ <;> rw [hs] <;> rfl
  · rw [if_neg hl]
    exact ⟨nofun, fun h => absurd h.1 hl⟩

theorem ofName_keyword {t : Text} {value : Literal} (h : (t, value) ∈ keywords) : ofName t = .literal value := by
  simp only [keywords, List.mem_cons, Prod.mk.injEq, List.not_mem_nil, or_false] at h
  rcases h with ⟨rfl, rfl⟩ | ⟨rfl, rfl⟩ | ⟨rfl, rfl⟩ <;> rfl

/-- Any other name is read as a name. -/
theorem ofName_name {t : Text} (h : ∀ value, (t, value) ∉ keywords) : ofName t = .name t := by
  have hne : ∀ {s : Text} {value : Literal}, (s, value) ∈ keywords → t ≠ s := fun hs ht => h _ (ht ▸ hs)
  unfold ofName
  rw [if_neg (hne (by decide : ("true".toList, Literal.bool true) ∈ keywords)),
    if_neg (hne (by decide : ("false".toList, Literal.bool false) ∈ keywords)),
    if_neg (hne (by decide : ("null".toList, Literal.null) ∈ keywords))]

end Stencil.Expr
