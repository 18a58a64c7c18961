import Stencil.Proofs.Grammar.Parse

/-!
# The descent on its index

The parser takes the lexemes that are left over from list to list. The descent here does the same over all lexemes, the end among
them, with one index that its functions move. It can halt where the index has no lexeme, it needs fuel, and it notes where the index
comes to stand and where it stood before and after whatever is started over: the loops of the levels and of the suffixes, an operand
behind a sign, an expression in parentheses and an argument.

The descent comes to what the parser comes to, and all that it notes is sound (`run_total`). One function is compared with one
function (`Mirrors`): the index stands before the lexemes that the parser has left over, and it moves over lexemes other than the end.
The fuel for that is ten times what is left over, since a call that takes no lexeme goes to a tighter level, or from the arguments to
a level, and there are at most ten of these in a row.

Fuel is all that can run out here. The stack of the machine that a parser runs on is not described: where it is limited to a
thousand calls, about 76 nested parentheses are too many.
-/

namespace Stencil.Expr

namespace Descent

/-! ## The descent -/

/-- What is started over behind a lexeme. -/
inductive Round
  /-- The loop of a level. -/
  | level
  /-- The loop of members and calls behind a target. -/
  | suffix
  /-- An operand behind an operator in front of it. -/
  | sign
  /-- An expression in parentheses. -/
  | group
  /-- An argument of a call. -/
  | argument
  deriving DecidableEq

/-- What happens to the index. -/
inductive Event
  /-- The index comes to stand at a lexeme. -/
  | stands (index : ℕ)
  /-- Something is started over: where the index stood at its last start, and where it stands now. -/
  | starts (round : Round) (before after : ℕ)
  deriving DecidableEq

/-- What the descent keeps: the index of the next lexeme, and what has happened to the index. -/
structure State where
  /-- The index of the next lexeme. -/
  index : ℕ
  /-- What has happened, in order. -/
  trace : List Event

/-- Why a descent halts without a value. -/
inductive Halt
  /-- There is no lexeme at the index. -/
  | outside
  /-- There is no fuel left. -/
  | unfinished
  /-- The lexemes are wrong. -/
  | error (e : ParseError)
  deriving DecidableEq

/-- A step of the descent. What has happened is kept where it halts. -/
abbrev Run := ExceptT Halt (StateM State)

/-- The index. -/
def index : Run ℕ := return (← get).index

/-- The step to the next lexeme. -/
def move : Run Unit := modify fun s => ⟨s.index + 1, s.trace ++ [.stands (s.index + 1)]⟩

/-- The start of something anew. -/
def start (round : Round) (before : ℕ) : Run Unit := modify fun s => ⟨s.index, s.trace ++ [.starts round before s.index]⟩

/-- A halt because of wrong lexemes. -/
def fail {α : Type} (e : ParseError) : Run α := throw (.error e)

section

variable (lexemes : List Lexeme)

/-- The lexeme at the index. -/
def peek : Run Lexeme := do
  match lexemes[(← index)]? with
  | some l => return l
  | none => throw .outside

/-- The lexeme at the index, and the step to the next one unless it is the end. -/
def advance : Run Lexeme := do
  let l ← peek lexemes
  if l.kind ≠ .finish then move
  return l

/-- What the lexeme at the index is taken for, and then the step to the next one. -/
def accept {α : Type} (take? : Lexeme → Option α) : Run (Option α) := do
  match take? (← peek lexemes) with
  | some a => do
    move
    return some a
  | none => return none

/-- Whether the lexeme at the index is a symbol, and then the step to the next one. -/
def acceptSymbol (symbol : Text) : Run Bool :=
  return (← accept lexemes (Option.guard (·.isSymbol symbol))).isSome

/-- The step over a closing parenthesis. -/
def expectClosing : Run Unit := do
  if ← acceptSymbol lexemes ")" then return ()
  else
    let l ← peek lexemes
    fail (.unclosed (if l.kind = .finish then none else some l.text) l.position)

mutual

/-- An expression of infix operators up to a level. -/
def level : ℕ → ℕ → Run Expr
  | 0, _ => throw .unfinished
  | fuel + 1, 0 => operand fuel
  | fuel + 1, k + 1 => do chain fuel k (← level fuel k)

/-- The loop of a level. -/
def chain : ℕ → ℕ → Expr → Run Expr
  | 0, _, _ => throw .unfinished
  | fuel + 1, k, left => do
    let before ← index
    match ← accept lexemes (·.infixOp? (k + 1)) with
    | some op => do
      start .level before
      let right ← level fuel k
      chain fuel k (op.node left right)
    | none => return left

/-- An operand with the operators in front of it. -/
def operand : ℕ → Run Expr
  | 0 => throw .unfinished
  | fuel + 1 => do
    let before ← index
    match ← accept lexemes (·.unaryOp?) with
    | some op => do
      start .sign before
      return .unary op (← operand fuel)
    | none => do suffixes fuel (← primary fuel)

/-- The loop of members and calls behind a target. -/
def suffixes : ℕ → Expr → Run Expr
  | 0, _ => throw .unfinished
  | fuel + 1, target => do
    let before ← index
    if ← acceptSymbol lexemes "." then
      start .suffix before
      let key ← advance lexemes
      if key.kind = .name then suffixes fuel (.member target key.text) else fail (.memberName key.position)
    else if ← acceptSymbol lexemes "(" then
      start .suffix before
      suffixes fuel (.call target (← arguments fuel before))
    else return target

/-- The arguments of a call behind its opening parenthesis, which stood at an index, with the closing one. -/
def arguments : ℕ → ℕ → Run (List Expr)
  | 0, _ => throw .unfinished
  | fuel + 1, before => do
    if ← acceptSymbol lexemes ")" then return []
    else
      start .argument before
      let head ← level fuel InfixOp.loosest
      return head :: (← moreArguments fuel)

/-- The loop of the arguments behind the first one, with the closing parenthesis. -/
def moreArguments : ℕ → Run (List Expr)
  | 0 => throw .unfinished
  | fuel + 1 => do
    let before ← index
    if ← acceptSymbol lexemes "," then
      start .argument before
      let next ← level fuel InfixOp.loosest
      return next :: (← moreArguments fuel)
    else
      expectClosing lexemes
      return []

/-- A literal, a reference, a name or an expression in parentheses. -/
def primary : ℕ → Run Expr
  | 0 => throw .unfinished
  | fuel + 1 => do
    let before ← index
    let l ← advance lexemes
    match l.kind with
    | .number =>
      match readNumber l.text with
      | .ok n => return .literal (.number n)
      | .error e => fail (.tooManyDigits e)
    | .string => return .literal (.text (unescape (l.text.drop 1).dropLast))
    | .var => return .var (l.text.drop 1)
    | .name => return ofName l.text
    | .symbol =>
      if l.text = "(".toList then do
        start .group before
        let inner ← level fuel InfixOp.loosest
        expectClosing lexemes
        return inner
      else fail (.unexpected l.text l.position)
    | .finish => fail .unexpectedEnd

end

/-- A whole expression. -/
def whole (fuel : ℕ) : Run Expr := do
  if (← peek lexemes).kind = .finish then fail .empty
  else
    let tree ← level lexemes fuel InfixOp.loosest
    let tail ← peek lexemes
    if tail.kind = .finish then return tree else fail (.unexpected tail.text tail.position)

end

/-- What the descent comes to from the first lexeme, and what it leaves. -/
def run (lexemes : List Lexeme) (fuel : ℕ) : Except Halt Expr × State :=
  (whole lexemes fuel).run.run ⟨0, [.stands 0]⟩

/-! ## What may happen -/

/-- The index stands at one of so many lexemes, and what is started over has taken at least one since the last start. -/
def Event.Sound (count : ℕ) : Event → Prop
  | stands index => index < count
  | starts _ before after => before < after ∧ after < count

/-- The lexeme that ends an expression. -/
def ending (stop : ℕ) : Lexeme := ⟨.finish, [], stop⟩

/-- The index stands before the last lexemes of all, and whatever happened is sound. -/
structure Stands (all ts : List Lexeme) (s : State) : Prop where
  /-- The lexemes before those are as many as the index says. -/
  split : ∃ before, all = before ++ ts ∧ before.length = s.index
  /-- Whatever happened is sound, and the end is a lexeme, too. -/
  sound : ∀ event ∈ s.trace, event.Sound (all.length + 1)

/-- From the place before some lexemes, a step of the descent comes to what is expected. -/
def Mirrors {α : Type} (all ts : List Lexeme) (r : Run α) (expected : Except ParseError (α × List Lexeme)) : Prop :=
  ∀ s, Stands all ts s → ∃ s', match expected with
    | .ok (value, rest) => r.run.run s = (.ok value, s') ∧ Stands all rest s'
    | .error e => r.run.run s = (.error (.error e), s') ∧ ∃ rest, Stands all rest s'

variable {α β : Type} {all ts rest : List Lexeme} {t : Lexeme} {s : State} {stop : ℕ}

theorem Stands.suffix (h : Stands all ts s) : ts <:+ all := by
  obtain ⟨before, hsplit, -⟩ := h.split
  exact ⟨before, hsplit.symm⟩

theorem Stands.index_add (h : Stands all ts s) : s.index + ts.length = all.length := by
  obtain ⟨before, rfl, hindex⟩ := h.split
  rw [List.length_append, hindex]

/-- What happens next is sound. -/
theorem Stands.log (h : Stands all ts s) {event : Event} (hevent : event.Sound (all.length + 1)) :
    Stands all ts ⟨s.index, s.trace ++ [event]⟩ := by
  refine ⟨h.split, fun e he => ?_⟩
  rcases List.mem_append.1 he with he | he
  · exact h.sound e he
  · exact List.mem_singleton.1 he ▸ hevent

theorem Stands.getElem? (h : Stands all ts s) (stop : ℕ) : (all ++ [ending stop])[s.index]? = some (ts.headD (ending stop)) := by
  obtain ⟨before, rfl, hindex⟩ := h.split
  rw [← hindex, List.append_assoc, List.getElem?_append_right (Nat.le_refl _), Nat.sub_self]
  cases ts <;> rfl

/-- One step after another. -/
theorem Mirrors.bind {r : Run α} {next : α → Run β} {first : Except ParseError (α × List Lexeme)}
    {after : α × List Lexeme → Except ParseError (β × List Lexeme)} (h : Mirrors all ts r first)
    (hnext : ∀ value rest, first = .ok (value, rest) → rest <:+ all → Mirrors all rest (next value) (after (value, rest))) :
    Mirrors all ts (r >>= next) (first >>= after) := by
  intro s hs
  obtain ⟨s', h⟩ := h s hs
  cases first with
  | error e =>
    obtain ⟨hr, hrest⟩ := h
    refine ⟨s', ?_, hrest⟩
    rw [ExceptT.run_bind, StateT.run_bind, hr]
    rfl
  | ok p =>
    obtain ⟨value, rest⟩ := p
    obtain ⟨hr, hstands⟩ := h
    have hrun : (r >>= next).run.run s = (next value).run.run s' := by
      rw [ExceptT.run_bind, StateT.run_bind, hr]
      rfl
    rw [hrun]
    exact hnext value rest rfl hstands.suffix s' hstands

/-- A step that gives a value, and what comes after it. -/
theorem Mirrors.step {r : Run α} {next : α → Run β} {value : α} {expected : Except ParseError (β × List Lexeme)}
    (h : Mirrors all ts r (.ok (value, rest))) (hnext : rest <:+ all → Mirrors all rest (next value) expected) :
    Mirrors all ts (r >>= next) expected := by
  show Mirrors all ts (r >>= next) ((Except.ok (value, rest) : Except ParseError _) >>= fun _ => expected)
  refine h.bind fun _ _ heq hsuffix => ?_
  cases heq
  exact hnext hsuffix

theorem Mirrors.error {r : Run α} {next : α → Run β} {e : ParseError} (h : Mirrors all ts r (.error e)) :
    Mirrors all ts (r >>= next) (.error e) := by
  show Mirrors all ts (r >>= next) ((Except.error e : Except ParseError (α × List Lexeme)) >>= fun _ => .error e)
  exact h.bind nofun

theorem mirrors_pure (value : α) : Mirrors all ts (pure value) (.ok (value, ts)) := fun s hs => ⟨s, rfl, hs⟩

theorem mirrors_fail (e : ParseError) : Mirrors all ts (fail e : Run α) (.error e) := fun s hs => ⟨s, rfl, ts, hs⟩

/-- The index is told by how many lexemes are left over. -/
theorem mirrors_index : Mirrors all ts index (.ok (all.length - ts.length, ts)) := by
  intro s hs
  have hindex := hs.index_add
  have hs' : s.index = all.length - ts.length := by omega
  exact ⟨s, by rw [← hs']; rfl, hs⟩

/-- The step to the next lexeme keeps the index at a lexeme, as the end is left. -/
theorem mirrors_move : Mirrors all (t :: rest) move (.ok ((), rest)) := by
  intro s hs
  have hindex := hs.index_add
  obtain ⟨before, hsplit, hlength⟩ := hs.split
  have hnext : Stands all rest ⟨s.index + 1, s.trace⟩ :=
    ⟨⟨before ++ [t], by rw [hsplit, List.append_assoc]; rfl, by rw [List.length_append, hlength]; rfl⟩, hs.sound⟩
  refine ⟨_, rfl, hnext.log ?_⟩
  rw [List.length_cons] at hindex
  show s.index + 1 < all.length + 1
  omega

/-- What starts over with a lexeme behind it is sound. -/
theorem mirrors_start (round : Round) {before : ℕ} (h : before + ts.length < all.length) :
    Mirrors all ts (start round before) (.ok ((), ts)) := by
  intro s hs
  have hindex := hs.index_add
  refine ⟨_, rfl, hs.log ?_⟩
  show before < s.index ∧ s.index < all.length + 1
  omega

theorem sub_length_add_lt (h : t :: rest <:+ all) : all.length - (t :: rest).length + rest.length < all.length := by
  have hle := h.length_le
  rw [List.length_cons] at hle ⊢
  omega

/-- The lexeme at the index is always there. -/
theorem mirrors_peek (stop : ℕ) : Mirrors all ts (peek (all ++ [ending stop])) (.ok (ts.headD (ending stop), ts)) := by
  intro s hs
  refine ⟨s, ?_, hs⟩
  have hpeek : (peek (all ++ [ending stop])).run.run s =
      (match (all ++ [ending stop])[s.index]? with
        | some l => pure l
        | none => throw .outside : Run Lexeme).run.run s := rfl
  rw [hpeek, hs.getElem? stop]
  rfl

section

variable {γ : Type} {take? : Lexeme → Option γ} {a : γ} (stop : ℕ)

/-- A lexeme that is taken for something is stepped over. -/
theorem mirrors_accept_some (h : take? t = some a) :
    Mirrors all (t :: rest) (accept (all ++ [ending stop]) take?) (.ok (some a, rest)) := by
  refine (mirrors_peek stop).step fun _ => ?_
  rw [List.headD_cons, h]
  exact mirrors_move.step fun _ => mirrors_pure _

/-- Another lexeme is not, nor is the end. -/
theorem mirrors_accept_none (h : take? (ts.headD (ending stop)) = none) :
    Mirrors all ts (accept (all ++ [ending stop]) take?) (.ok (none, ts)) := by
  refine (mirrors_peek stop).step fun _ => ?_
  rw [h]
  exact mirrors_pure _

theorem mirrors_acceptSymbol_true {symbol : Text} (h : t.isSymbol symbol = true) :
    Mirrors all (t :: rest) (acceptSymbol (all ++ [ending stop]) symbol) (.ok (true, rest)) :=
  (mirrors_accept_some stop (Option.guard_eq_some_iff.2 ⟨rfl, h⟩)).step fun _ => mirrors_pure _

theorem mirrors_acceptSymbol_false {symbol : Text} (h : t.isSymbol symbol = false) :
    Mirrors all (t :: rest) (acceptSymbol (all ++ [ending stop]) symbol) (.ok (false, t :: rest)) :=
  (mirrors_accept_none stop (Option.guard_eq_none_iff.2 h)).step fun _ => mirrors_pure _

theorem mirrors_acceptSymbol_nil (symbol : Text) : Mirrors all [] (acceptSymbol (all ++ [ending stop]) symbol) (.ok (false, [])) :=
  (mirrors_accept_none stop rfl).step fun _ => mirrors_pure _

theorem mirrors_advance (h : t.kind ≠ .finish) : Mirrors all (t :: rest) (advance (all ++ [ending stop])) (.ok (t, rest)) := by
  refine (mirrors_peek stop).step fun _ => ?_
  rw [List.headD_cons, if_pos h]
  exact mirrors_move.step fun _ => mirrors_pure _

theorem mirrors_advance_nil : Mirrors all [] (advance (all ++ [ending stop])) (.ok (ending stop, [])) := by
  refine (mirrors_peek stop).step fun _ => ?_
  rw [List.headD_nil, if_neg (fun hne : (ending stop).kind ≠ .finish => hne rfl)]
  exact mirrors_pure _

end

/-- A closing parenthesis is expected as the parser expects it. -/
theorem mirrors_expectClosing (hkinds : ∀ l ∈ all, l.kind ≠ .finish) (hts : ts <:+ all) (stop : ℕ) :
    Mirrors all ts (expectClosing (all ++ [ending stop])) (outcome (closing stop ts)) := by
  cases ts with
  | nil =>
    refine (mirrors_acceptSymbol_nil stop _).step fun _ => ?_
    rw [if_neg Bool.false_ne_true]
    refine (mirrors_peek stop).step fun _ => ?_
    exact mirrors_fail _
  | cons t rest =>
    by_cases ht : t.isSymbol ")"
    · rw [outcome_closing stop ht]
      refine (mirrors_acceptSymbol_true stop ht).step fun _ => ?_
      rw [if_pos rfl]
      exact mirrors_pure _
    · have hkind : t.kind ≠ .finish := hkinds t (hts.subset List.mem_cons_self)
      rw [closing, if_neg ht]
      rw [Bool.not_eq_true] at ht
      refine (mirrors_acceptSymbol_false stop ht).step fun _ => ?_
      rw [if_neg Bool.false_ne_true]
      refine (mirrors_peek stop).step fun _ => ?_
      rw [List.headD_cons, if_neg hkind]
      exact mirrors_fail _

/-! ## The functions of the descent -/

/-- No level is read at the end. -/
theorem outcome_level_nil (stop k : ℕ) : outcome (Expr.level stop k []) = .error .unexpectedEnd := by
  induction k with
  | zero => rw [outcome_level_zero, outcome_operand_nil]
  | succ k ih =>
    rw [outcome_level_succ, ih]
    rfl

/-- With so much fuel the functions of the descent do what those of the parser do: ten times the lexemes that are left over, and what
a function calls before it takes one. -/
structure Faithful (all : List Lexeme) (stop fuel : ℕ) : Prop where
  level : ∀ k ts, k ≤ 6 → 10 * ts.length + k + 2 < fuel → ts <:+ all →
    Mirrors all ts (level (all ++ [ending stop]) fuel k) (outcome (Expr.level stop k ts))
  chain : ∀ k left ts, k < 6 → 10 * ts.length < fuel → ts <:+ all →
    Mirrors all ts (chain (all ++ [ending stop]) fuel k left) (outcome (Expr.chain stop k left ts))
  operand : ∀ ts, 10 * ts.length + 1 < fuel → ts <:+ all →
    Mirrors all ts (operand (all ++ [ending stop]) fuel) (outcome (Expr.operand stop ts))
  suffixes : ∀ target ts, 10 * ts.length < fuel → ts <:+ all →
    Mirrors all ts (suffixes (all ++ [ending stop]) fuel target) (outcome (Expr.suffixes stop target ts))
  arguments : ∀ before ts, before + ts.length < all.length → 10 * ts.length + 9 < fuel → ts <:+ all →
    Mirrors all ts (arguments (all ++ [ending stop]) fuel before) (outcome (Expr.arguments stop ts))
  moreArguments : ∀ ts, 10 * ts.length < fuel → ts <:+ all →
    Mirrors all ts (moreArguments (all ++ [ending stop]) fuel) (outcome (Expr.moreArguments stop ts))
  primary : ∀ ts, 10 * ts.length < fuel → ts <:+ all →
    Mirrors all ts (primary (all ++ [ending stop]) fuel) (outcome (Expr.primary stop ts))

namespace Faithful

variable {fuel : ℕ}

/-- A level calls the next tighter one, and its loop behind what that took. -/
theorem level_succ (h : Faithful all stop fuel) {k : ℕ} (hk : k ≤ 6) (hfuel : 10 * ts.length + k + 2 < fuel + 1)
    (hts : ts <:+ all) :
    Mirrors all ts (Descent.level (all ++ [ending stop]) (fuel + 1) k) (outcome (Expr.level stop k ts)) := by
  cases k with
  | zero =>
    rw [Descent.level, outcome_level_zero]
    exact h.operand ts (by omega) hts
  | succ k =>
    rw [Descent.level, outcome_level_succ]
    refine (h.level k ts (by omega) (by omega) hts).bind fun left rest hr hrest => ?_
    have hlen := length_lt_of_outcome hr
    exact h.chain k left rest hk (by omega) hrest

/-- The loop of a level starts over behind an operator. -/
theorem chain_succ (h : Faithful all stop fuel) {k : ℕ} (hk : k < 6) (left : Expr) (hfuel : 10 * ts.length < fuel + 1)
    (hts : ts <:+ all) :
    Mirrors all ts (Descent.chain (all ++ [ending stop]) (fuel + 1) k left) (outcome (Expr.chain stop k left ts)) := by
  rw [Descent.chain]
  refine mirrors_index.step fun _ => ?_
  cases ts with
  | nil =>
    rw [outcome_chain_nil]
    exact (mirrors_accept_none stop rfl).step fun _ => mirrors_pure left
  | cons t rest =>
    rw [List.length_cons] at hfuel
    cases ht : t.infixOp? (k + 1) with
    | none =>
      rw [outcome_chain_none stop ht]
      exact (mirrors_accept_none stop ht).step fun _ => mirrors_pure left
    | some op =>
      rw [outcome_chain_some stop ht]
      refine (mirrors_accept_some stop ht).step fun hrest => ?_
      refine (mirrors_start .level (sub_length_add_lt hts)).step fun _ => ?_
      refine (h.level k rest (Nat.le_of_lt hk) (by omega) hrest).bind fun right after hr hafter => ?_
      have hlen := length_lt_of_outcome hr
      exact h.chain k _ after hk (by omega) hafter

/-- An operand starts over behind a sign. -/
theorem operand_succ (h : Faithful all stop fuel) (hfuel : 10 * ts.length + 1 < fuel + 1) (hts : ts <:+ all) :
    Mirrors all ts (Descent.operand (all ++ [ending stop]) (fuel + 1)) (outcome (Expr.operand stop ts)) := by
  rw [Descent.operand]
  refine mirrors_index.step fun _ => ?_
  cases ts with
  | nil =>
    have hprimary := h.primary [] (by omega) hts
    rw [outcome_primary_nil] at hprimary
    rw [outcome_operand_nil]
    refine (mirrors_accept_none stop rfl).step fun _ => ?_
    exact hprimary.error
  | cons t rest =>
    cases ht : t.unaryOp? with
    | some op =>
      rw [outcome_operand_some stop ht]
      rw [List.length_cons] at hfuel
      refine (mirrors_accept_some stop ht).step fun hrest => ?_
      refine (mirrors_start .sign (sub_length_add_lt hts)).step fun _ => ?_
      exact (h.operand rest (by omega) hrest).bind fun inner after _ _ => mirrors_pure _
    | none =>
      rw [outcome_operand_none stop ht]
      refine (mirrors_accept_none stop ht).step fun _ => ?_
      refine (h.primary _ (by omega) hts).bind fun target after hr hafter => ?_
      have hlen := length_lt_of_outcome hr
      exact h.suffixes target after (by omega) hafter

/-- The loop of the suffixes starts over behind a point or a parenthesis. -/
theorem suffixes_succ (h : Faithful all stop fuel) (target : Expr) (hfuel : 10 * ts.length < fuel + 1) (hts : ts <:+ all)
    (hkinds : ∀ l ∈ all, l.kind ≠ .finish) :
    Mirrors all ts (Descent.suffixes (all ++ [ending stop]) (fuel + 1) target) (outcome (Expr.suffixes stop target ts)) := by
  rw [Descent.suffixes]
  refine mirrors_index.step fun _ => ?_
  cases ts with
  | nil =>
    rw [outcome_suffixes_nil]
    refine (mirrors_acceptSymbol_nil stop _).step fun _ => ?_
    exact (mirrors_acceptSymbol_nil stop _).step fun _ => mirrors_pure target
  | cons t rest =>
    rw [List.length_cons] at hfuel
    by_cases hp : t.isSymbol "."
    · rw [outcome_suffixes_member stop hp]
      refine (mirrors_acceptSymbol_true stop hp).step fun hrest => ?_
      rw [if_pos rfl]
      refine (mirrors_start .suffix (sub_length_add_lt hts)).step fun _ => ?_
      cases rest with
      | nil => exact (mirrors_advance_nil stop).step fun _ => mirrors_fail _
      | cons key after =>
        refine (mirrors_advance stop (hkinds key (hrest.subset List.mem_cons_self))).step fun hafter => ?_
        rw [List.length_cons] at hfuel
        by_cases hk : key.kind = .name
        · simp only [if_pos hk]
          exact h.suffixes _ after (by omega) hafter
        · simp only [if_neg hk]
          exact mirrors_fail _
    · rw [Bool.not_eq_true] at hp
      refine (mirrors_acceptSymbol_false stop hp).step fun _ => ?_
      rw [if_neg Bool.false_ne_true]
      by_cases ho : t.isSymbol "("
      · rw [outcome_suffixes_call stop hp ho]
        refine (mirrors_acceptSymbol_true stop ho).step fun hrest => ?_
        rw [if_pos rfl]
        refine (mirrors_start .suffix (sub_length_add_lt hts)).step fun _ => ?_
        refine (h.arguments _ rest (sub_length_add_lt hts) (by omega) hrest).bind fun given after hr hafter => ?_
        have hlen := length_lt_of_outcome hr
        exact h.suffixes _ after (by omega) hafter
      · rw [Bool.not_eq_true] at ho
        rw [outcome_suffixes_other stop hp ho]
        exact (mirrors_acceptSymbol_false stop ho).step fun _ => mirrors_pure target

/-- The first argument starts behind the parenthesis of the call. -/
theorem arguments_succ (h : Faithful all stop fuel) {before : ℕ} (hbefore : before + ts.length < all.length)
    (hfuel : 10 * ts.length + 9 < fuel + 1) (hts : ts <:+ all) :
    Mirrors all ts (Descent.arguments (all ++ [ending stop]) (fuel + 1) before) (outcome (Expr.arguments stop ts)) := by
  rw [Descent.arguments]
  cases ts with
  | nil =>
    have hlevel := h.level 6 [] (Nat.le_refl _) (by omega) hts
    rw [outcome_level_nil] at hlevel
    rw [outcome_arguments_nil]
    refine (mirrors_acceptSymbol_nil stop _).step fun _ => ?_
    rw [if_neg Bool.false_ne_true]
    refine (mirrors_start .argument hbefore).step fun _ => ?_
    exact hlevel.error
  | cons t rest =>
    by_cases ht : t.isSymbol ")"
    · rw [outcome_arguments_close stop ht]
      refine (mirrors_acceptSymbol_true stop ht).step fun _ => ?_
      exact mirrors_pure _
    · rw [Bool.not_eq_true] at ht
      rw [outcome_arguments_other stop ht]
      refine (mirrors_acceptSymbol_false stop ht).step fun _ => ?_
      rw [if_neg Bool.false_ne_true]
      refine (mirrors_start .argument hbefore).step fun _ => ?_
      refine (h.level 6 _ (Nat.le_refl _) (by omega) hts).bind fun head after hr hafter => ?_
      have hlen := length_lt_of_outcome hr
      exact (h.moreArguments after (by omega) hafter).bind fun _ _ _ _ => mirrors_pure _

/-- A further argument starts behind a comma. -/
theorem moreArguments_succ (h : Faithful all stop fuel) (hfuel : 10 * ts.length < fuel + 1) (hts : ts <:+ all)
    (hkinds : ∀ l ∈ all, l.kind ≠ .finish) :
    Mirrors all ts (Descent.moreArguments (all ++ [ending stop]) (fuel + 1)) (outcome (Expr.moreArguments stop ts)) := by
  rw [Descent.moreArguments]
  refine mirrors_index.step fun _ => ?_
  cases ts with
  | nil =>
    rw [outcome_moreArguments_nil]
    refine (mirrors_acceptSymbol_nil stop _).step fun _ => ?_
    have hclosing := mirrors_expectClosing hkinds hts stop
    rw [closing] at hclosing
    exact hclosing.error
  | cons t rest =>
    by_cases ht : t.isSymbol ","
    · rw [outcome_moreArguments_comma stop ht]
      rw [List.length_cons] at hfuel
      refine (mirrors_acceptSymbol_true stop ht).step fun hrest => ?_
      rw [if_pos rfl]
      refine (mirrors_start .argument (sub_length_add_lt hts)).step fun _ => ?_
      refine (h.level 6 rest (Nat.le_refl _) (by omega) hrest).bind fun next after hr hafter => ?_
      have hlen := length_lt_of_outcome hr
      exact (h.moreArguments after (by omega) hafter).bind fun others _ _ _ => mirrors_pure _
    · rw [Bool.not_eq_true] at ht
      rw [outcome_moreArguments_other stop ht]
      refine (mirrors_acceptSymbol_false stop ht).step fun _ => ?_
      rw [if_neg Bool.false_ne_true]
      exact (mirrors_expectClosing hkinds hts stop).bind fun _ _ _ _ => mirrors_pure _

/-- An expression in parentheses starts behind the opening one. -/
theorem primary_succ (h : Faithful all stop fuel) (hfuel : 10 * ts.length < fuel + 1) (hts : ts <:+ all)
    (hkinds : ∀ l ∈ all, l.kind ≠ .finish) :
    Mirrors all ts (Descent.primary (all ++ [ending stop]) (fuel + 1)) (outcome (Expr.primary stop ts)) := by
  rw [Descent.primary]
  refine mirrors_index.step fun _ => ?_
  cases ts with
  | nil =>
    rw [outcome_primary_nil]
    exact (mirrors_advance_nil stop).step fun _ => mirrors_fail _
  | cons t rest =>
    have hkind := hkinds t (hts.subset List.mem_cons_self)
    rw [outcome_primary]
    refine (mirrors_advance stop hkind).step fun hrest => ?_
    cases hk : t.kind with
    | number =>
      cases readNumber t.text with
      | ok n => exact mirrors_pure _
      | error e => exact mirrors_fail _
    | string => exact mirrors_pure _
    | var => exact mirrors_pure _
    | name => exact mirrors_pure _
    | symbol =>
      by_cases ht : t.text = "(".toList
      · simp only [if_pos ht]
        rw [List.length_cons] at hfuel
        refine (mirrors_start .group (sub_length_add_lt hts)).step fun _ => ?_
        refine (h.level 6 rest (Nat.le_refl _) (by omega) hrest).bind fun inner after _ hafter => ?_
        exact (mirrors_expectClosing hkinds hafter stop).bind fun _ _ _ _ => mirrors_pure _
      · simp only [if_neg ht]
        exact mirrors_fail _
    | finish => exact absurd hk hkind

end Faithful

/-- The functions of the descent do what those of the parser do. By induction on the fuel. -/
theorem faithful (hkinds : ∀ l ∈ all, l.kind ≠ .finish) (stop fuel : ℕ) : Faithful all stop fuel := by
  induction fuel with
  | zero => constructor <;> intros <;> omega
  | succ fuel ih =>
    constructor
    · exact fun k ts hk hfuel hts => ih.level_succ hk hfuel hts
    · exact fun k left ts hk hfuel hts => ih.chain_succ hk left hfuel hts
    · exact fun ts hfuel hts => ih.operand_succ hfuel hts
    · exact fun target ts hfuel hts => ih.suffixes_succ target hfuel hts hkinds
    · exact fun before ts hbefore hfuel hts => ih.arguments_succ hbefore hfuel hts
    · exact fun ts hfuel hts => ih.moreArguments_succ hfuel hts hkinds
    · exact fun ts hfuel hts => ih.primary_succ hfuel hts hkinds

/-! ## Whole expressions -/

/-- What the parser gives, with no lexeme left over. -/
def finished (r : Except ParseError Expr) : Except ParseError (Expr × List Lexeme) := r.map fun tree => (tree, [])

/-- The lexemes of an expression do not have the end among them. -/
theorem kind_ne_finish {expression : Text} (h : Lexeme.scan 0 expression = .ok all) : ∀ l ∈ all, l.kind ≠ .finish := by
  intro l hl
  obtain ⟨before, c, rest, n, -, hstarts, -⟩ := Lexeme.mem_scan h l hl
  intro hk
  rw [hk] at hstarts
  cases hstarts

/-- The descent over the lexemes of an expression does what the parser does with the expression. -/
theorem mirrors_whole {expression : Text} (h : Lexeme.scan 0 expression = .ok all) (fuel : ℕ) (hfuel : 10 * all.length + 8 < fuel) :
    Mirrors all all (whole (all ++ [ending expression.length]) fuel) (finished (parse expression)) := by
  have hkinds := kind_ne_finish h
  refine (mirrors_peek _).step fun _ => ?_
  cases all with
  | nil =>
    rw [parse_nil h]
    exact mirrors_fail _
  | cons t ts =>
    rw [parse_eq h (List.cons_ne_nil _ _), List.headD_cons, if_neg (hkinds t List.mem_cons_self)]
    have hlevel := (faithful hkinds expression.length fuel).level 6 _ (Nat.le_refl _) hfuel List.suffix_rfl
    cases hr : outcome (Expr.level expression.length 6 (t :: ts)) with
    | error e =>
      rw [hr] at hlevel
      exact hlevel.error
    | ok p =>
      obtain ⟨tree, rest⟩ := p
      rw [hr] at hlevel
      refine hlevel.step fun hrest => ?_
      refine (mirrors_peek _).step fun _ => ?_
      cases rest with
      | nil => exact mirrors_pure tree
      | cons l rest =>
        rw [List.headD_cons, if_neg (hkinds l (hrest.subset List.mem_cons_self))]
        exact mirrors_fail _

/-- Only an integer with too many digits is refused as such. -/
theorem exists_long_of_parse_error {expression : Text} (h : Lexeme.scan 0 expression = .ok all) {d : TooManyDigits}
    (he : parse expression = .error (.tooManyDigits d)) :
    ∃ l ∈ all, l.kind = .number ∧ '.' ∉ l.text ∧ digitLimit < l.text.length := by
  by_cases hne : all = []
  · subst hne
    rw [parse_nil h] at he
    cases he
  · rw [parse_eq h hne] at he
    have hreads := reads_level expression.length 6 all
    rcases bind_error_iff.1 he with hr | ⟨⟨tree, rest⟩, hr, hrest⟩
    · rw [hr] at hreads
      obtain ⟨l, hl, hk, hn⟩ := hreads d rfl
      exact ⟨l, hl, hk, readNumber_error hn⟩
    · cases rest <;> cases hrest

/-- The descent is total and stays within the lexemes. Nested ten calls deep for each lexeme, it comes to the tree of the parser with
the index at the end, or to its error, which is a failure of evaluation unless an integer has too many digits. The index always stands
at a lexeme, and whatever is started over has taken one since its last start. -/
theorem run_total [World] {expression : Text} {lexemes : List Lexeme} (h : Lexeme.lex expression = .ok lexemes) (fuel : ℕ)
    (hfuel : 10 * lexemes.length ≤ fuel) :
    (∀ event ∈ (run lexemes fuel).2.trace, event.Sound lexemes.length) ∧ (run lexemes fuel).2.index < lexemes.length ∧
    ((∃ tree, (run lexemes fuel).1 = .ok tree ∧ parse expression = .ok tree ∧
        lexemes[(run lexemes fuel).2.index]?.map (·.kind) = some .finish) ∨
      ∃ e, (run lexemes fuel).1 = .error (.error e) ∧ parse expression = .error e ∧
        (Failure.ofFault (.malformed e) (some expression) = .evaluation (.malformed e) (some expression) ∨
          ∃ d, e = .tooManyDigits d ∧ ∃ l ∈ lexemes, l.kind = .number ∧ '.' ∉ l.text ∧ digitLimit < l.text.length)) := by
  obtain ⟨all, hscan, hlex⟩ := bind_ok_iff.1 h
  have hlexemes : lexemes = all ++ [ending expression.length] := (Except.ok.inj hlex).symm
  have hlength : lexemes.length = all.length + 1 := by rw [hlexemes, List.length_append]; rfl
  have hstart : Stands all all ⟨0, [.stands 0]⟩ :=
    ⟨⟨[], rfl, rfl⟩, fun event he => List.mem_singleton.1 he ▸ Nat.succ_pos _⟩
  obtain ⟨s, hs⟩ := mirrors_whole hscan fuel (by omega) _ hstart
  rw [← hlexemes] at hs
  cases hparse : parse expression with
  | ok tree =>
    rw [hparse] at hs
    obtain ⟨hrun, hstands⟩ := hs
    have hrun : run lexemes fuel = (.ok tree, s) := hrun
    have hindex : s.index < all.length + 1 := by
      have hadd := hstands.index_add
      omega
    have hend := hstands.getElem? expression.length
    rw [hrun, hlength]
    rw [← hlexemes] at hend
    exact ⟨hstands.sound, hindex, .inl ⟨tree, rfl, rfl, by rw [hend]; rfl⟩⟩
  | error e =>
    rw [hparse] at hs
    obtain ⟨hrun, rest, hstands⟩ := hs
    have hrun : run lexemes fuel = (.error (.error e), s) := hrun
    have hindex : s.index < all.length + 1 := by
      have hadd := hstands.index_add
      omega
    rw [hrun, hlength]
    refine ⟨hstands.sound, hindex, .inr ⟨e, rfl, rfl, ?_⟩⟩
    by_cases hlong : ∃ d, e = .tooManyDigits d
    · obtain ⟨d, rfl⟩ := hlong
      obtain ⟨l, hl, hspec⟩ := exists_long_of_parse_error hscan hparse
      exact .inr ⟨d, rfl, l, hlexemes ▸ List.mem_append_left _ hl, hspec⟩
    · exact .inl (ofFault_malformed (fun d hd => hlong ⟨d, hd⟩) _)

open scoped World in
/-- A sign before an expression in parentheses: both are started over behind a lexeme. -/
theorem run_total_sign :
    let lexemes : List Lexeme := [⟨.symbol, "-", 0⟩, ⟨.symbol, "(", 1⟩, ⟨.number, "7", 2⟩, ⟨.symbol, ")", 3⟩, ⟨.finish, [], 4⟩]
    Lexeme.lex "-(7)" = .ok lexemes ∧ (∀ event ∈ (run lexemes 50).2.trace, event.Sound 5) ∧ (run lexemes 50).2.index < 5 := by
  have h : Lexeme.lex ['-', '(', '7', ')'] =
      .ok [⟨.symbol, "-", 0⟩, ⟨.symbol, "(", 1⟩, ⟨.number, "7", 2⟩, ⟨.symbol, ")", 3⟩, ⟨.finish, [], 4⟩] := by
    rw [Lexeme.lex, Lexeme.scan_cons (n := 0) (k := .symbol) rfl rfl, List.drop_zero,
      Lexeme.scan_cons (n := 0) (k := .symbol) rfl rfl, List.drop_zero,
      Lexeme.scan_cons (n := 0) (k := .number) rfl rfl, List.drop_zero,
      Lexeme.scan_cons (n := 0) (k := .symbol) rfl rfl, List.drop_zero, Lexeme.scan]
    rfl
  obtain ⟨hsound, hindex, -⟩ := run_total h 50 (by decide)
  exact ⟨h, hsound, hindex⟩

example : (run [⟨.symbol, "-", 0⟩, ⟨.symbol, "(", 1⟩, ⟨.number, "7", 2⟩, ⟨.symbol, ")", 3⟩, ⟨.finish, [], 4⟩] 50).2.trace =
    [.stands 0, .stands 1, .starts .sign 0 1, .stands 2, .starts .group 1 2, .stands 3, .stands 4] := by
  decide

end Descent
end Stencil.Expr
