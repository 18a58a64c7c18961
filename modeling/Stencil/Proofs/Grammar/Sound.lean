import Stencil.Proofs.Grammar.Basic
import Stencil.Proofs.Grammar.Outcome

/-!
# What the parser reads is in the grammar

Every function of the parser uses up lexemes that spell what it reads (`Reads`): the functions of one phrase spell the phrase,
and those that go on after a phrase spell a longer one. Where a function fails although nothing is too long, it says what is
wrong with the lexemes. The theorems follow the functions, with their recursion.
-/

namespace Stencil.Expr

/-- What a function of the parser comes to on some lexemes: a value that means those that it used up, or an error. An error
about too many digits is that of an integer among the lexemes. -/
def Reads {α : Type} (Means : α → List Lexeme → Prop) (ts : List Lexeme) :
    Except ParseError (α × List Lexeme) → Prop
  | .ok (value, rest) => ∃ used, ts = used ++ rest ∧ Means value used
  | .error e => ∀ d, e = .tooManyDigits d → ∃ l ∈ ts, l.kind = .number ∧ readNumber l.text = .error d

section

variable {α β : Type} {Means Means' : α → List Lexeme → Prop} {ts : List Lexeme}
  {r : Except ParseError (α × List Lexeme)}

/-- What is read means whatever its meaning implies. -/
theorem Reads.mono (h : Reads Means ts r) (himp : ∀ value used, Means value used → Means' value used) :
    Reads Means' ts r := by
  cases r with
  | error e => exact h
  | ok p =>
    obtain ⟨used, heq, hm⟩ := h
    exact ⟨used, heq, himp _ _ hm⟩

/-- A lexeme used up before the others. -/
theorem Reads.cons {t : Lexeme} (h : Reads (fun value used => Means value (t :: used)) ts r) : Reads Means (t :: ts) r := by
  cases r with
  | error e =>
    intro d hd
    obtain ⟨l, hl, hn⟩ := h d hd
    exact ⟨l, List.mem_cons_of_mem _ hl, hn⟩
  | ok p =>
    obtain ⟨used, heq, hm⟩ := h
    exact ⟨t :: used, heq ▸ rfl, hm⟩

/-- One part read after another. -/
theorem Reads.bind {Result : β → List Lexeme → Prop} {next : α × List Lexeme → Except ParseError (β × List Lexeme)}
    (h : Reads Means ts r)
    (hnext : ∀ value used rest, r = .ok (value, rest) → Means value used →
      Reads (fun b used' => Result b (used ++ used')) rest (next (value, rest))) :
    Reads Result ts (r >>= next) := by
  cases r with
  | error e => exact h
  | ok p =>
    obtain ⟨value, rest⟩ := p
    obtain ⟨used, rfl, hm⟩ := h
    have hn := hnext value used rest rfl hm
    change Reads Result (used ++ rest) (next (value, rest))
    cases hr : next (value, rest) with
    | error e =>
      rw [hr] at hn
      intro d hd
      obtain ⟨l, hl, hl'⟩ := hn d hd
      exact ⟨l, List.mem_append_right _ hl, hl'⟩
    | ok p' =>
      rw [hr] at hn
      obtain ⟨used', heq, hm'⟩ := hn
      exact ⟨used ++ used', by rw [heq, List.append_assoc], hm'⟩

theorem Reads.done {value : α} (h : Means value []) : Reads Means ts (.ok (value, ts)) := ⟨[], rfl, h⟩

theorem Reads.error {e : ParseError} (h : ∀ d, e ≠ .tooManyDigits d) : Reads Means ts (.error e) :=
  fun d hd => absurd hd (h d)

end

variable (stop : Nat)

/-- A closing parenthesis uses up itself. -/
theorem reads_closing (ts : List Lexeme) :
    Reads (fun _ used => ∃ c : Lexeme, c.isSymbol ")" ∧ used = [c]) ts (outcome (closing stop ts)) := by
  cases ts with
  | nil => exact .error (by simp)
  | cons t rest =>
    by_cases ht : t.isSymbol ")"
    · rw [outcome_closing stop ht]
      exact .cons (.done ⟨t, ht, rfl⟩)
    · rw [closing, if_neg ht]
      exact .error (by simp)

mutual

/-- What is read at a level is an expression of the level. -/
theorem reads_level (k : Nat) (ts : List Lexeme) :
    Reads (fun e used => Derives (.level k e) used) ts (outcome (level stop k ts)) := by
  cases k with
  | zero =>
    rw [outcome_level_zero]
    exact reads_operand ts
  | succ k =>
    rw [outcome_level_succ]
    refine (reads_level k ts).bind fun left used rest hr hleft => ?_
    have hlen := length_lt_of_outcome hr
    exact (reads_chain k left rest).mono fun e used' he => he used (.ofTighter hleft)
termination_by (ts.length, k + 2)

/-- What is read after an expression of a level makes a longer one with it. -/
theorem reads_chain (k : Nat) (left : Expr) (ts : List Lexeme) :
    Reads (fun e used => ∀ before, Derives (.level (k + 1) left) before → Derives (.level (k + 1) e) (before ++ used)) ts
      (outcome (chain stop k left ts)) := by
  cases ts with
  | nil =>
    rw [outcome_chain_nil]
    exact .done fun before hb => by rwa [List.append_nil]
  | cons t rest =>
    cases ht : t.infixOp? (k + 1) with
    | none =>
      rw [outcome_chain_none stop ht]
      exact .done fun before hb => by rwa [List.append_nil]
    | some op =>
      rw [outcome_chain_some stop ht]
      obtain ⟨hkind, hop⟩ := infixOp?_eq_some_iff.1 ht
      refine .cons ((reads_level k rest).bind fun right used after hr hright => ?_)
      have hlen := length_lt_of_outcome hr
      refine (reads_chain k (op.node left right) after).mono fun e used' he before hb => ?_
      have hjoined := he _ (.joined hb hkind hop hright)
      simpa only [List.append_assoc, List.cons_append] using hjoined
termination_by (ts.length, 0)

/-- What is read as an operand is one. -/
theorem reads_operand (ts : List Lexeme) :
    Reads (fun e used => Derives (.level 0 e) used) ts (outcome (operand stop ts)) := by
  cases ts with
  | nil =>
    rw [outcome_operand_nil]
    exact .error (by simp)
  | cons t rest =>
    cases ht : t.unaryOp? with
    | some op =>
      rw [outcome_operand_some stop ht]
      obtain ⟨hkind, hop⟩ := unaryOp?_eq_some_iff.1 ht
      refine .cons ((reads_operand rest).bind fun e used after hr he => .done ?_)
      rw [List.append_nil]
      exact .signed hkind hop he
    | none =>
      rw [outcome_operand_none stop ht]
      refine (reads_primary (t :: rest)).bind fun target used after hr htarget => ?_
      have hlen := length_lt_of_outcome hr
      exact (reads_suffixes target after).mono fun e used' he => .ofSuffixed (he used (.ofPrimary htarget))
termination_by (ts.length, 1)

/-- What is read after a target makes a longer one with it. -/
theorem reads_suffixes (target : Expr) (ts : List Lexeme) :
    Reads (fun e used => ∀ before, Derives (.suffixed target) before → Derives (.suffixed e) (before ++ used)) ts
      (outcome (suffixes stop target ts)) := by
  cases ts with
  | nil =>
    rw [outcome_suffixes_nil]
    exact .done fun before hb => by rwa [List.append_nil]
  | cons t rest =>
    by_cases hp : t.isSymbol "."
    · rw [outcome_suffixes_member stop hp]
      cases rest with
      | nil => exact .error (by simp)
      | cons key after =>
        by_cases hk : key.kind = .name
        · simp only [if_pos hk]
          refine .cons (.cons ((reads_suffixes (.member target key.text) after).mono fun e used he before hb => ?_))
          have hmember := he _ (.member hb hp hk)
          simpa only [List.append_assoc, List.cons_append, List.nil_append] using hmember
        · simp only [if_neg hk]
          exact .error (by simp)
    · rw [Bool.not_eq_true] at hp
      by_cases ho : t.isSymbol "("
      · rw [outcome_suffixes_call stop hp ho]
        refine .cons ((reads_arguments rest).bind fun es used after hr hes => ?_)
        have hlen := length_lt_of_outcome hr
        obtain ⟨inner, c, hinner, hc, rfl⟩ := hes
        refine (reads_suffixes (.call target es) after).mono fun e used' he before hb => ?_
        have hcall := he _ (.call hb ho hinner hc)
        simpa only [List.append_assoc, List.cons_append, List.nil_append] using hcall
      · rw [Bool.not_eq_true] at ho
        rw [outcome_suffixes_other stop hp ho]
        exact .done fun before hb => by rwa [List.append_nil]
termination_by (ts.length, 0)

/-- What is read as the arguments of a call are such, before a closing parenthesis. -/
theorem reads_arguments (ts : List Lexeme) :
    Reads (fun es used => ∃ inner c, Derives (.arguments es) inner ∧ c.isSymbol ")" ∧ used = inner ++ [c]) ts
      (outcome (arguments stop ts)) := by
  cases ts with
  | nil =>
    rw [outcome_arguments_nil]
    exact .error (by simp)
  | cons t rest =>
    by_cases ht : t.isSymbol ")"
    · rw [outcome_arguments_close stop ht]
      exact .cons (.done ⟨[], t, .noArguments, ht, rfl⟩)
    · rw [Bool.not_eq_true] at ht
      rw [outcome_arguments_other stop ht]
      refine (reads_level 6 (t :: rest)).bind fun e used after hr he => ?_
      have hlen := length_lt_of_outcome hr
      refine (reads_moreArguments after).bind fun es used' after' _ hes => .done ?_
      obtain ⟨inner, c, hinner, hc, rfl⟩ := hes
      refine ⟨used ++ inner, c, .someArguments he hinner, hc, ?_⟩
      simp only [List.append_assoc, List.append_nil]
termination_by (ts.length, 9)

/-- What is read as the further arguments of a call are such, before a closing parenthesis. -/
theorem reads_moreArguments (ts : List Lexeme) :
    Reads (fun es used => ∃ inner c, Derives (.others es) inner ∧ c.isSymbol ")" ∧ used = inner ++ [c]) ts
      (outcome (moreArguments stop ts)) := by
  cases ts with
  | nil =>
    rw [outcome_moreArguments_nil]
    exact .error (by simp)
  | cons t rest =>
    by_cases ht : t.isSymbol ","
    · rw [outcome_moreArguments_comma stop ht]
      refine .cons ((reads_level 6 rest).bind fun e used after hr he => ?_)
      have hlen := length_lt_of_outcome hr
      refine (reads_moreArguments after).bind fun es used' after' _ hes => .done ?_
      obtain ⟨inner, c, hinner, hc, rfl⟩ := hes
      refine ⟨t :: (used ++ inner), c, .someOthers ht he hinner, hc, ?_⟩
      simp only [List.append_assoc, List.append_nil, List.cons_append]
    · rw [Bool.not_eq_true] at ht
      rw [outcome_moreArguments_other stop ht]
      refine (reads_closing stop (t :: rest)).bind fun _ used after _ hclose => .done ?_
      obtain ⟨c, hc, rfl⟩ := hclose
      exact ⟨[], c, .noOthers, hc, rfl⟩
termination_by (ts.length, 0)

/-- What is read as a primary is one. -/
theorem reads_primary (ts : List Lexeme) :
    Reads (fun e used => Derives (.primary e) used) ts (outcome (primary stop ts)) := by
  cases ts with
  | nil =>
    rw [outcome_primary_nil]
    exact .error (by simp)
  | cons t rest =>
    rw [outcome_primary]
    cases hk : t.kind with
    | number =>
      cases hn : readNumber t.text with
      | ok n => exact .cons (.done (.number hk hn))
      | error d =>
        intro d' hd
        cases hd
        exact ⟨t, List.mem_cons_self, hk, hn⟩
    | string => exact .cons (.done (.string hk))
    | var => exact .cons (.done (.var hk))
    | name =>
      by_cases hname : ∀ value, (t.text, value) ∉ keywords
      · rw [ofName_name hname]
        exact .cons (.done (.name hk hname))
      · simp only [Classical.not_forall, Classical.not_not] at hname
        obtain ⟨value, hvalue⟩ := hname
        rw [ofName_keyword hvalue]
        exact .cons (.done (.keyword hk hvalue))
    | symbol =>
      by_cases ht : t.text = "(".toList
      · have ho : t.isSymbol "(" := by simp [Lexeme.isSymbol, hk, ht]
        simp only [if_pos ht]
        refine .cons ((reads_level 6 rest).bind fun e used after _ he => ?_)
        refine (reads_closing stop after).bind fun _ used' after' _ hclose => .done ?_
        obtain ⟨c, hc, rfl⟩ := hclose
        rw [List.append_nil]
        exact .group ho he hc
      · simp only [if_neg ht]
        exact .error (by simp)
    | finish => exact .error (by simp)
termination_by (ts.length, 0)

end

end Stencil.Expr
