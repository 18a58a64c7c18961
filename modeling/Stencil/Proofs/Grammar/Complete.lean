import Stencil.Proofs.Grammar.Sound

/-!
# The parser reads all of the grammar

A phrase is read whole, whatever comes after it, as long as that does not go on with the phrase (`Stops`). A phrase that may go
on to the left of an operator is read up to where the function that goes on takes over. With what the parser reads being in
the grammar, this makes the parser and the grammar the same, and the grammar unambiguous.
-/

namespace Stencil.Expr

theorem isSymbol_iff {l : Lexeme} {s : Text} : l.isSymbol s ↔ l.kind = .symbol ∧ l.text = s := by
  simp [Lexeme.isSymbol]

theorem isSymbol_eq_false {l : Lexeme} {s t : Text} (h : l.isSymbol s) (hne : s ≠ t) : l.isSymbol t = false := by
  rw [Bool.eq_false_iff]
  intro ht
  exact hne ((isSymbol_iff.1 h).2.symm.trans (isSymbol_iff.1 ht).2)

/-- A symbol that is no infix operator is none at any level. -/
theorem infixOp?_eq_none {l : Lexeme} {s : Text} (h : l.isSymbol s) (hs : InfixOp.ofSymbol? s = none) (k : Nat) :
    l.infixOp? k = none := by
  obtain ⟨hk, rfl⟩ := isSymbol_iff.1 h
  unfold Lexeme.infixOp?
  rw [if_pos hk, hs]
  rfl

/-! ## Where phrases start and stop -/

/-- What the first lexeme of a phrase can be. -/
def Phrase.Starts : Phrase → List Lexeme → Prop
  | .level _ _, ts => ∃ l after, ts = l :: after ∧ l.isSymbol ")" = false
  | .suffixed _, ts | .primary _, ts => ∃ l after, ts = l :: after ∧ l.isSymbol ")" = false ∧ l.unaryOp? = none
  | .arguments _, _ => True
  | .others _, ts => ∀ l ∈ ts.head?, l.isSymbol ","

/-- A phrase starts with at least one lexeme, and no operand with a closing parenthesis. -/
theorem Derives.starts {phrase : Phrase} {ts : List Lexeme} (h : Derives phrase ts) : phrase.Starts ts := by
  have hother : ∀ {l : Lexeme}, l.kind ≠ .symbol → l.isSymbol ")" = false ∧ l.unaryOp? = none := by
    intro l hl
    refine ⟨?_, ?_⟩
    · rw [Bool.eq_false_iff]
      exact fun hs => hl (isSymbol_iff.1 hs).1
    · rw [Option.eq_none_iff_forall_ne_some]
      exact fun op hop => hl (unaryOp?_eq_some_iff.1 hop).1
  have happend : ∀ {p : Lexeme → Prop} {ts after : List Lexeme}, (∃ l rest, ts = l :: rest ∧ p l) →
      ∃ l rest, ts ++ after = l :: rest ∧ p l := by
    rintro p ts after ⟨l, rest, rfl, hp⟩
    exact ⟨l, rest ++ after, rfl, hp⟩
  induction h with
  | number hk _ => exact ⟨_, _, rfl, hother (by rw [hk]; nofun)⟩
  | string hk => exact ⟨_, _, rfl, hother (by rw [hk]; nofun)⟩
  | var hk => exact ⟨_, _, rfl, hother (by rw [hk]; nofun)⟩
  | keyword hk _ => exact ⟨_, _, rfl, hother (by rw [hk]; nofun)⟩
  | name hk _ => exact ⟨_, _, rfl, hother (by rw [hk]; nofun)⟩
  | group ho _ _ _ =>
    refine ⟨_, _, rfl, isSymbol_eq_false ho (by decide), ?_⟩
    obtain ⟨hk, ht⟩ := isSymbol_iff.1 ho
    unfold Lexeme.unaryOp?
    rw [if_pos hk, ht]
    rfl
  | ofPrimary _ ih => exact ih
  | member _ _ _ ih => exact happend ih
  | call _ _ _ _ ih _ => exact happend ih
  | noArguments => trivial
  | someArguments => trivial
  | noOthers => exact nofun
  | someOthers hc _ _ _ _ =>
    intro l hl
    cases hl
    exact hc
  | ofSuffixed _ ih =>
    obtain ⟨l, after, heq, hl, -⟩ := ih
    exact ⟨l, after, heq, hl⟩
  | @signed l op _ _ _ hop _ _ =>
    refine ⟨_, _, rfl, ?_⟩
    rw [Bool.eq_false_iff]
    intro hs
    rw [(isSymbol_iff.1 hs).2] at hop
    cases op <;> exact absurd hop (by decide)
  | ofTighter _ ih => exact ih
  | joined _ _ _ _ ih _ => exact happend ih

/-- The lexemes do not go on with an expression of a level. -/
def Stops (k : Nat) (ts : List Lexeme) : Prop :=
  ∀ l ∈ ts.head?, l.isSymbol "." = false ∧ l.isSymbol "(" = false ∧ ∀ j ≤ k, l.infixOp? j = none

theorem Stops.tighter {k : Nat} {ts : List Lexeme} (h : Stops (k + 1) ts) : Stops k ts := by
  intro l hl
  obtain ⟨hp, ho, hop⟩ := h l hl
  exact ⟨hp, ho, fun j hj => hop j (Nat.le_succ_of_le hj)⟩

/-- A symbol that is no operator and starts no member access and no call does not go on with an expression. -/
theorem stops_symbol {l : Lexeme} {s : Text} (h : l.isSymbol s) (hp : s ≠ ".") (ho : s ≠ "(")
    (hs : InfixOp.ofSymbol? s = none) (k : Nat) (ts : List Lexeme) : Stops k (l :: ts) := by
  intro l' hl
  cases hl
  exact ⟨isSymbol_eq_false h hp, isSymbol_eq_false h ho, fun j _ => infixOp?_eq_none h hs j⟩

/-- A closing parenthesis does not go on with an expression. -/
theorem stops_close {c : Lexeme} (h : c.isSymbol ")") (k : Nat) (ts : List Lexeme) : Stops k (c :: ts) :=
  stops_symbol h (by decide) (by decide) rfl k ts

/-- Neither do the further arguments of a call, up to the parenthesis that closes it. -/
theorem stops_others {es : List Expr} {after : List Lexeme} {c : Lexeme} (h : Derives (.others es) after)
    (hc : c.isSymbol ")") (k : Nat) (rest : List Lexeme) : Stops k (after ++ c :: rest) := by
  have hcomma := h.starts
  cases after with
  | nil => exact stops_close hc k rest
  | cons comma after => exact stops_symbol (hcomma comma rfl) (by decide) (by decide) rfl k _

/-- An operator does not go on with an expression of a tighter level. -/
theorem stops_operator {k : Nat} {l : Lexeme} {op : InfixOp} (h : l.infixOp? (k + 1) = some op) (ts : List Lexeme) :
    Stops k (l :: ts) := by
  intro l' hl
  cases hl
  have hno : ∀ s : Text, InfixOp.ofSymbol? s = none → l.isSymbol s = false := by
    intro s hs
    rw [Bool.eq_false_iff]
    intro hsym
    rw [infixOp?_eq_none hsym hs] at h
    cases h
  refine ⟨hno _ rfl, hno _ rfl, fun j hj => ?_⟩
  rw [Option.eq_none_iff_forall_ne_some]
  intro op' hop'
  have hjk := infixOp?_inj hop' h
  omega

/-! ## Phrases are read whole -/

variable {stop : Nat}

/-- A target is left as it is where no member access and no call follows. -/
theorem suffixes_of_stops {ts : List Lexeme} (h : Stops 0 ts) (target : Expr) :
    outcome (suffixes stop target ts) = .ok (target, ts) := by
  cases ts with
  | nil => exact outcome_suffixes_nil stop target
  | cons l ts =>
    obtain ⟨hp, ho, -⟩ := h l rfl
    exact outcome_suffixes_other stop hp ho target ts

/-- An expression is left as it is where no operator of its level follows. -/
theorem chain_of_stops {k : Nat} {ts : List Lexeme} (h : Stops (k + 1) ts) (left : Expr) :
    outcome (chain stop k left ts) = .ok (left, ts) := by
  cases ts with
  | nil => exact outcome_chain_nil stop k left
  | cons l ts =>
    obtain ⟨-, -, hop⟩ := h l rfl
    exact outcome_chain_none stop (hop _ (Nat.le_refl _)) left ts

/-- How the parser reads a phrase before any other lexemes. -/
def Phrase.ReadBy (stop : Nat) : Phrase → List Lexeme → Prop
  | .primary e, ts => ∀ rest, outcome (Expr.primary stop (ts ++ rest)) = .ok (e, rest)
  | .suffixed e, ts => ∀ rest, outcome (Expr.operand stop (ts ++ rest)) = outcome (Expr.suffixes stop e rest)
  | .level 0 e, ts => ∀ rest, Stops 0 rest → outcome (Expr.operand stop (ts ++ rest)) = .ok (e, rest)
  | .level (k + 1) e, ts =>
    ∀ rest, Stops k rest → outcome (Expr.level stop (k + 1) (ts ++ rest)) = outcome (Expr.chain stop k e rest)
  | .arguments es, ts => ∀ c rest, c.isSymbol ")" → outcome (Expr.arguments stop (ts ++ c :: rest)) = .ok (es, rest)
  | .others es, ts => ∀ c rest, c.isSymbol ")" → outcome (Expr.moreArguments stop (ts ++ c :: rest)) = .ok (es, rest)

/-- An expression of a level is read whole where the lexemes after it do not go on with it. -/
theorem Phrase.ReadBy.level {k : Nat} {e : Expr} {ts rest : List Lexeme} (h : (Phrase.level k e).ReadBy stop ts)
    (hs : Stops k rest) : outcome (Expr.level stop k (ts ++ rest)) = .ok (e, rest) := by
  cases k with
  | zero => exact (outcome_level_zero stop _).trans (h rest hs)
  | succ k => exact (h rest hs.tighter).trans (chain_of_stops hs e)

/-- Every phrase is read. By induction on how it is derived; a phrase that starts with its own kind is read up to the function
that goes on, and that function takes the next step. -/
theorem Derives.readBy {phrase : Phrase} {ts : List Lexeme} (h : Derives phrase ts) : phrase.ReadBy stop ts := by
  induction h with
  | number hk hn =>
    intro rest
    rw [List.singleton_append, outcome_primary, hk]
    simp only [hn]
  | string hk =>
    intro rest
    rw [List.singleton_append, outcome_primary, hk]
  | var hk =>
    intro rest
    rw [List.singleton_append, outcome_primary, hk]
  | keyword hk hvalue =>
    intro rest
    rw [List.singleton_append, outcome_primary, hk]
    simp only [ofName_keyword hvalue]
  | name hk hname =>
    intro rest
    rw [List.singleton_append, outcome_primary, hk]
    simp only [ofName_name hname]
  | @group o c e ts ho _ hc ih =>
    intro rest
    obtain ⟨hk, ht⟩ := isSymbol_iff.1 ho
    have hinner := ih.level (stops_close hc 6 rest)
    rw [List.cons_append, List.append_assoc, List.singleton_append, outcome_primary, hk]
    simp only [if_pos ht, hinner, bind, Except.bind, outcome_closing stop hc]
  | @ofPrimary e ts hd ih =>
    intro rest
    obtain ⟨l, after, rfl, -, hl⟩ := hd.starts
    rw [List.cons_append, outcome_operand_none stop hl]
    have hprimary := ih rest
    rw [List.cons_append] at hprimary
    rw [hprimary]
    rfl
  | @member e ts point key _ hp hk ih =>
    intro rest
    rw [List.append_assoc, ih]
    rw [List.cons_append, List.singleton_append, outcome_suffixes_member stop hp]
    simp only [if_pos hk]
  | @call e es ts inner o c _ ho _ hc ih ihargs =>
    intro rest
    rw [List.append_assoc, ih, List.cons_append,
      outcome_suffixes_call stop (isSymbol_eq_false ho (by decide)) ho, List.append_assoc, List.singleton_append,
      ihargs c rest hc]
    rfl
  | noArguments =>
    intro c rest hc
    exact outcome_arguments_close stop hc rest
  | @someArguments e es ts after hd hothers ih ihothers =>
    intro c rest hc
    have hhead := ih.level (stops_others hothers hc 6 rest)
    obtain ⟨l, ts, rfl, hl⟩ := hd.starts
    rw [List.append_assoc, List.cons_append, outcome_arguments_other stop hl]
    rw [List.cons_append] at hhead
    rw [hhead]
    simp only [bind, Except.bind, ihothers c rest hc]
  | noOthers =>
    intro c rest hc
    rw [List.nil_append, outcome_moreArguments_other stop (isSymbol_eq_false hc (by decide)), outcome_closing stop hc]
    rfl
  | @someOthers e es ts after comma hcomma _ hothers ih ihothers =>
    intro c rest hc
    have hnext := ih.level (stops_others hothers hc 6 rest)
    rw [List.cons_append, List.append_assoc, outcome_moreArguments_comma stop hcomma, hnext]
    simp only [bind, Except.bind, ihothers c rest hc]
  | ofSuffixed _ ih =>
    intro rest hs
    rw [ih, suffixes_of_stops hs]
  | signed hk hop _ ih =>
    intro rest hs
    rw [List.cons_append, outcome_operand_some stop (unaryOp?_eq_some_iff.2 ⟨hk, hop⟩), ih rest hs]
    rfl
  | ofTighter _ ih =>
    intro rest hs
    rw [outcome_level_succ, ih.level hs]
    rfl
  | @joined k l op left right ts ts' _ hk hop _ ih ihright =>
    intro rest hs
    have hl : l.infixOp? (k + 1) = some op := infixOp?_eq_some_iff.2 ⟨hk, hop⟩
    rw [List.append_assoc, List.cons_append, ih _ (stops_operator hl _), outcome_chain_some stop hl,
      ihright.level hs]
    rfl

end Stencil.Expr
