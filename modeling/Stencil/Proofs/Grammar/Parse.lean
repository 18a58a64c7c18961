import Stencil.Proofs.Grammar.Complete
import Stencil.Proofs.Lexeme
import Stencil.Render.Failure

/-!
# Reading an expression is deriving it

The parser gives the tree of an expression exactly if the grammar does (`parse_eq_ok_iff`), and the grammar gives one tree at
most (`derives_unique`). An expression that is not in the grammar is refused as an evaluation that failed; only an integer with
too many digits fails in another way (`parse_error`).
-/

namespace Stencil

namespace Expr

/-- No integer among the lexemes has more digits than can be read. -/
def IntegersFit (ts : List Lexeme) : Prop :=
  ∀ l ∈ ts, l.kind = .number → '.' ∉ l.text → l.text.length ≤ digitLimit

/-! ## Too many digits -/

/-- Only an integer with too many digits is not read. -/
theorem readNumber_error {t : Text} {d : TooManyDigits} (h : readNumber t = .error d) :
    '.' ∉ t ∧ digitLimit < t.length := by
  unfold readNumber at h
  split at h
  · rename_i hs
    refine ⟨Text.splitAtFirst?_eq_none_iff.1 hs, ?_⟩
    unfold Numeral.toNumber at h
    rcases bind_error_iff.1 h with hr | ⟨n, -, hn⟩
    · unfold readInteger at hr
      split at hr
      · assumption
      · cases hr
    · cases hn
  · cases h

/-- Where all integers fit, no error is about too many digits. -/
theorem ne_tooManyDigits {α : Type} {Means : α → List Lexeme → Prop} {ts : List Lexeme} {e : ParseError}
    (h : Reads Means ts (.error e)) (hfit : IntegersFit ts) (d : TooManyDigits) : e ≠ .tooManyDigits d := by
  intro he
  obtain ⟨l, hl, hk, hn⟩ := h d he
  obtain ⟨hpoint, hlen⟩ := readNumber_error hn
  exact absurd (hfit l hl hk hpoint) (Nat.not_le_of_lt hlen)

/-- An error of reading that is not about too many digits is a failure of evaluation, with the expression. -/
theorem ofFault_malformed [World] {e : ParseError} (h : ∀ d, e ≠ .tooManyDigits d) (expression : Option Text) :
    Failure.ofFault (.malformed e) expression = .evaluation (.malformed e) expression := by
  cases e with
  | tooManyDigits d => exact absurd rfl (h d)
  | _ => rfl

/-! ## Whole expressions -/

theorem Derives.outcome_level {k : Nat} {e : Expr} {ts : List Lexeme} (h : Derives (.level k e) ts) (stop : Nat) :
    outcome (level stop k ts) = .ok (e, []) := by
  have hread : outcome (level stop k (ts ++ [])) = .ok (e, []) := h.readBy.level nofun
  rwa [List.append_nil] at hread

/-- The grammar gives one tree at most. -/
theorem derives_unique {k : Nat} {e e' : Expr} {ts : List Lexeme} (h : Derives (.level k e) ts)
    (h' : Derives (.level k e') ts) : e = e' :=
  congrArg Prod.fst (Except.ok.inj ((h.outcome_level 0).symm.trans (h'.outcome_level 0)))

/-- Reading an expression is reading its lexemes and finding none left over. -/
theorem parse_eq {expression : Text} {lexemes : List Lexeme} (h : Lexeme.scan 0 expression = .ok lexemes)
    (hne : lexemes ≠ []) :
    parse expression = outcome (level expression.length 6 lexemes) >>= fun whole =>
      match whole.2 with
      | [] => .ok whole.1
      | t :: _ => .error (.unexpected t.text t.position) := by
  unfold parse
  rw [h]
  cases lexemes with
  | nil => exact absurd rfl hne
  | cons t ts =>
    simp only [bind, Except.bind, InfixOp.loosest]
    cases level expression.length 6 (t :: ts) with
    | error e => rfl
    | ok whole =>
      simp only [outcome, Except.map]
      cases whole.rest <;> rfl

/-- An expression without lexemes is refused, and is not in the grammar. -/
theorem parse_nil {expression : Text} (h : Lexeme.scan 0 expression = .ok []) : parse expression = .error .empty := by
  unfold parse
  rw [h]
  rfl

/-- The parser gives a tree exactly if the grammar does. -/
theorem parse_eq_ok_iff {expression : Text} {lexemes : List Lexeme} (h : Lexeme.scan 0 expression = .ok lexemes)
    (e : Expr) : parse expression = .ok e ↔ Derives (.level 6 e) lexemes := by
  by_cases hne : lexemes = []
  · subst hne
    rw [parse_nil h]
    refine ⟨nofun, fun hd => ?_⟩
    obtain ⟨l, after, hl, -⟩ := hd.starts
    cases hl
  · rw [parse_eq h hne]
    have hreads := reads_level expression.length 6 lexemes
    constructor
    · intro hp
      obtain ⟨⟨value, rest⟩, hr, hwhole⟩ := bind_ok_iff.1 hp
      rw [hr] at hreads
      obtain ⟨used, rfl, hd⟩ := hreads
      cases rest with
      | nil =>
        cases hwhole
        rw [List.append_nil]
        exact hd
      | cons t rest => cases hwhole
    · intro hd
      rw [hd.outcome_level]
      rfl

/-- A literal by itself is read as that. -/
theorem parse_keyword {t : Text} {value : Literal} (h : (t, value) ∈ keywords) : parse t = .ok (.literal value) := by
  have hscan : Lexeme.scan 0 t = .ok [⟨.name, t, 0⟩] := by
    simp only [keywords, List.mem_cons, Prod.mk.injEq, List.not_mem_nil, or_false] at h
    rcases h with ⟨rfl, -⟩ | ⟨rfl, -⟩ | ⟨rfl, -⟩ <;> exact Lexeme.scan_single rfl rfl
  exact (parse_eq_ok_iff hscan _).2 (.expression (.ofPrimary (.keyword rfl h)))

/-- An expression outside of the grammar is refused. Where all integers fit, that is a failure of evaluation. -/
theorem parse_error {expression : Text} {lexemes : List Lexeme} (h : Lexeme.scan 0 expression = .ok lexemes)
    (hfit : IntegersFit lexemes) (hno : ∀ e, ¬ Derives (.level 6 e) lexemes) :
    ∃ error, parse expression = .error error ∧ ∀ d, error ≠ .tooManyDigits d := by
  by_cases hne : lexemes = []
  · subst hne
    exact ⟨_, parse_nil h, by simp⟩
  · have hparse := parse_eq h hne
    have hreads := reads_level expression.length 6 lexemes
    cases hr : outcome (level expression.length 6 lexemes) with
    | error e =>
      rw [hr] at hparse hreads
      exact ⟨e, hparse, ne_tooManyDigits hreads hfit⟩
    | ok whole =>
      obtain ⟨value, rest⟩ := whole
      rw [hr] at hparse
      cases rest with
      | nil => exact absurd ((parse_eq_ok_iff h value).1 hparse) (hno value)
      | cons t rest => exact ⟨_, hparse, by simp⟩

/-- The parser and the grammar agree on every expression whose lexemes can be told apart: the trees are the same, there is one
at most, and where there is none and no integer is too long, the failure is one of evaluation and names the expression. -/
theorem parse_iff_derives [World] {expression : Text} {lexemes : List Lexeme} {last : Lexeme}
    (h : Lexeme.lex expression = .ok (lexemes ++ [last])) :
    (∀ e, parse expression = .ok e ↔ Derives (.level 6 e) lexemes) ∧
    (∀ e e', Derives (.level 6 e) lexemes → Derives (.level 6 e') lexemes → e = e') ∧
    (IntegersFit lexemes → (∀ e, ¬ Derives (.level 6 e) lexemes) →
      ∃ error, parse expression = .error error ∧
        Failure.ofFault (.malformed error) (some expression) = .evaluation (.malformed error) (some expression)) := by
  have hs := Lexeme.scan_of_lex h
  refine ⟨parse_eq_ok_iff hs, fun e e' => derives_unique, fun hfit hno => ?_⟩
  obtain ⟨error, hp, hne⟩ := parse_error hs hfit hno
  exact ⟨error, hp, ofFault_malformed hne _⟩

open scoped World in
/-- The parser and the grammar agree on a difference with a sign. -/
theorem parse_iff_derives_difference :
    let lexemes : List Lexeme := [⟨.number, "1", 0⟩, ⟨.symbol, "-", 1⟩, ⟨.symbol, "-", 2⟩, ⟨.var, "$x", 3⟩]
    Lexeme.lex "1--$x" = .ok (lexemes ++ [⟨.finish, [], 5⟩]) ∧
      ∀ e, parse "1--$x" = .ok e ↔ Derives (.level 6 e) lexemes := by
  have h : Lexeme.lex ['1', '-', '-', '$', 'x'] =
      .ok ([⟨.number, "1", 0⟩, ⟨.symbol, "-", 1⟩, ⟨.symbol, "-", 2⟩, ⟨.var, "$x", 3⟩] ++ [⟨.finish, [], 5⟩]) := by
    rw [Lexeme.lex, Lexeme.scan_cons (n := 0) (k := .number) rfl rfl, List.drop_zero,
      Lexeme.scan_cons (n := 0) (k := .symbol) rfl rfl, List.drop_zero,
      Lexeme.scan_cons (n := 0) (k := .symbol) rfl rfl, List.drop_zero,
      Lexeme.scan_cons (n := 1) (k := .var) rfl rfl, List.drop_succ_cons, List.drop_zero, Lexeme.scan]
    rfl
  exact ⟨h, (parse_iff_derives h).1⟩

end Expr

end Stencil
