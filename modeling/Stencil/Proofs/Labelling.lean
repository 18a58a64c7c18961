import Stencil.Proofs.Grammar.Parse
import Stencil.Proofs.Lexeme
import Stencil.Proofs.Message
import Stencil.Proofs.Raising
import Stencil.Proofs.Run

/-!
# Failures of evaluation name their expression once

What goes wrong in an evaluation is raised where it is met, at any depth: by the parser, which names the expression, by the parts of
the evaluator, which do not, by arithmetic, by the reading and writing of integers, by an object of the caller's, and by a stack that
runs out, in kinds of their own (`Raised`). The evaluation of the whole text catches all of it (`Raised.relabel`). So an expression
has a value or fails as an evaluation does, with its text behind the words and nowhere before that (`Machine.eval_labelled`).
-/

namespace Stencil

/-! ## The names in an expression -/

namespace Expr

mutual

/-- All names in an expression, but those of references, are names. -/
def Named : Expr → Prop
  | literal _ | var _ => True
  | name key => Text.isName key = true
  | member target key => Named target ∧ Text.isName key = true
  | call callee arguments => Named callee ∧ NamedAll arguments
  | unary _ operand => Named operand
  | binary _ left right | logical _ left right => Named left ∧ Named right

/-- All names in a list of expressions, but those of references, are names. -/
def NamedAll : List Expr → Prop
  | [] => True
  | e :: rest => Named e ∧ NamedAll rest

end

/-- All names in a phrase, but those of references, are names. -/
def Phrase.Named : Phrase → Prop
  | .level _ e | .suffixed e | .primary e => e.Named
  | .arguments es | .others es => NamedAll es

theorem named_node {op : InfixOp} {left right : Expr} (hl : left.Named) (hr : right.Named) : (op.node left right).Named := by
  cases op <;> exact ⟨hl, hr⟩

/-- A phrase has names for its names, if the lexemes that are to be names are. By induction on the derivation. -/
theorem Derives.named {phrase : Phrase} {ts : List Lexeme} (h : Derives phrase ts)
    (hts : ∀ l ∈ ts, l.kind = .name → Text.isName l.text = true) : phrase.Named := by
  induction h with
  | number _ _ => trivial
  | string _ => trivial
  | var _ => trivial
  | keyword _ _ => trivial
  | name hk _ => exact hts _ List.mem_cons_self hk
  | noArguments => trivial
  | noOthers => trivial
  | group _ _ _ ih => exact ih fun l hl => hts l (by simp [hl])
  | ofPrimary _ ih => exact ih hts
  | member _ _ hk ih => exact ⟨ih fun l hl => hts l (by simp [hl]), hts _ (by simp) hk⟩
  | call _ _ _ _ ihcallee iharguments =>
    exact ⟨ihcallee fun l hl => hts l (by simp [hl]), iharguments fun l hl => hts l (by simp [hl])⟩
  | someArguments _ _ ihe ihes => exact ⟨ihe fun l hl => hts l (by simp [hl]), ihes fun l hl => hts l (by simp [hl])⟩
  | someOthers _ _ _ ihe ihes => exact ⟨ihe fun l hl => hts l (by simp [hl]), ihes fun l hl => hts l (by simp [hl])⟩
  | ofSuffixed _ ih => exact ih hts
  | signed _ _ _ ih => exact ih fun l hl => hts l (by simp [hl])
  | ofTighter _ ih => exact ih hts
  | joined _ _ _ _ ihleft ihright =>
    exact named_node (ihleft fun l hl => hts l (by simp [hl])) (ihright fun l hl => hts l (by simp [hl]))

/-- An expression that is read has names for its names. -/
theorem named_of_parse {t : Text} {e : Expr} (h : parse t = .ok e) : e.Named := by
  obtain ⟨ts, hs, -⟩ := bind_ok_iff.1 h
  refine ((parse_eq_ok_iff hs e).1 h).named fun l hl hk => ?_
  obtain ⟨before, c, rest, n, -, hstarts, htext⟩ := Lexeme.mem_scan hs l hl
  rw [hk] at hstarts
  cases hstarts with
  | name hc =>
    rw [htext, ← List.prefix_iff_eq_take.1 (List.takeWhile_prefix _), Text.isName, hc, Bool.true_and]
    exact List.all_takeWhile

end Expr

/-! ## Faults that tell words and errors of objects -/

theorem UnaryOp.isWord_symbol (op : UnaryOp) : op.symbol.IsWord := by cases op <;> decide

theorem BinaryOp.isWord_symbol (op : BinaryOp) : op.symbol.IsWord := by cases op <;> decide

/-- A name is a single word. -/
theorem Text.isWord_of_isName {t : Text} (h : t.isName = true) : t.IsWord := by
  intro c hc
  have hrange := toNat_of_isNamePart (isNamePart_of_mem h hc)
  rw [isQuote, Bool.or_eq_false_iff, decide_eq_false_iff_not, decide_eq_false_iff_not]
  refine ⟨⟨?_, ?_⟩, ?_⟩
  all_goals
    rintro rfl
    exact absurd hrange.1 (by decide)

section

variable [World]

/-- The word that a fault tells is a single one, and the error of an object that it is has been raised by one. -/
structure Fault.Sound (fault : Fault) : Prop where
  word : ∀ word ∈ fault.word?, word.IsWord
  raised : ∀ e, fault = .object e → World.Raises e

/-- A fault that tells no word and is no error of an object. -/
theorem Fault.Sound.plain {fault : Fault} (hword : fault.word? = none) (hobject : ∀ e, fault ≠ .object e) : fault.Sound where
  word word hmem := by
    rw [hword] at hmem
    cases hmem
  raised e he := absurd he (hobject e)

/-- A fault that tells a word and is no error of an object. -/
theorem Fault.Sound.ofWord {fault : Fault} {word : Text} (hword : fault.word? = some word) (h : word.IsWord) : fault.Sound where
  word word' hmem := by
    rw [hword] at hmem
    cases hmem
    exact h
  raised e he := by
    rw [he] at hword
    cases hword

/-- Where objects raise errors of the kinds that an evaluation catches only, it lets no error pass. -/
theorem Fault.Sound.escape?_eq_none {fault : Fault} (hs : fault.Sound) (h : World.Caught) : fault.escape? = none := by
  have habout : ∀ {v say e}, Fault.about v say = .error (.object e) → World.Raises e := by
    intro v say e he
    exact (Value.unwritten_shown v).map _ he
  have hraises : ∀ e, fault.words = .error (.object e) → World.Raises e := by
    intro e he
    cases fault with
    | unreadable | operand | notNumber | noLeadingInteger | notConvertible => exact habout he
    | notCallable v => exact (Value.unwritten_toText v).map _ he
    | malformed e => cases e <;> cases he
    | object e =>
      cases he
      exact hs.raised e rfl
    | _ => cases he
  unfold Fault.escape?
  split
  · rename_i e he
    rw [if_neg (h e (hraises e he))]
  · rfl

namespace Fault

variable {α : Type}

theorem failsWith_ofDigits (read : Except TooManyDigits α) : FailsWith Sound (ofDigits read) :=
  FailsWith.mapError (P := fun _ => True) (fun _ _ => trivial) fun _ _ => .plain rfl nofun

theorem failsWith_ofNumber (calculated : Except Number.Fault α) : FailsWith Sound (ofNumber calculated) :=
  FailsWith.mapError (P := fun _ => True) (fun _ _ => trivial) fun _ _ => .plain rfl nofun

/-- Asking an object fails soundly. -/
theorem failsWith_ofObject {answer : Except ObjectError α} (h : FailsWith World.Raises answer) :
    FailsWith Sound (ofObject answer) := by
  refine h.mapError fun e he => ⟨nofun, ?_⟩
  rintro e' ⟨⟩
  exact he

/-- Writing and comparing values fails soundly. -/
theorem failsWith_ofObstacle {done : Except Obstacle α} (h : FailsWith Obstacle.Raised done) : FailsWith Sound (ofObstacle done) := by
  refine h.mapError fun obstacle hraised => ?_
  cases obstacle with
  | tooManyDigits e => exact .plain rfl nofun
  | object e =>
    refine ⟨nofun, ?_⟩
    rintro e' ⟨⟩
    exact hraised

theorem failsWith_toText (v : Value) : FailsWith Sound (ofObstacle v.toText) :=
  failsWith_ofObstacle (v.unwritten_toText.mono fun _ => Obstacle.Unwritten.raised)

end Fault

open Fault

/-- What is no operand is told with the operator. -/
theorem Value.failsWith_operand {symbol : Text} (h : symbol.IsWord) (v : Value) : FailsWith Sound (v.operand symbol) := by
  refine (failsWith_ofDigits _).bind fun read => ?_
  cases read with
  | some n => exact .ok n
  | none => exact .error (.ofWord rfl h)

theorem UnaryOp.failsWith_apply (op : UnaryOp) (v : Value) : FailsWith Sound (op.apply v) := by
  cases op with
  | not => exact .ok _
  | negate => exact (Value.failsWith_operand negate.isWord_symbol v).bind fun _ => .ok _

theorem BinaryOp.failsWith_calculate (op : BinaryOp) (calculation : Number → Number → Except Number.Fault Number) (v w : Value) :
    FailsWith Sound (op.calculate calculation v w) :=
  (Value.failsWith_operand op.isWord_symbol v).bind fun _ =>
    (Value.failsWith_operand op.isWord_symbol w).bind fun _ => (failsWith_ofNumber _).bind fun _ => .ok _

/-- An operator on two values fails soundly. -/
theorem BinaryOp.failsWith_apply (op : BinaryOp) (v w : Value) : FailsWith Sound (op.apply v w) := by
  cases op with
  | equal => exact failsWith_ofObstacle (Value.failsWith_looselyEquals v w)
  | notEqual =>
    exact (failsWith_ofObstacle (Value.failsWith_looselyEquals v w)).bind fun answer =>
      (failsWith_ofObject answer.failsWith_truth).bind fun _ => .ok _
  | add =>
    simp only [apply]
    split
    · exact (failsWith_toText v).bind fun _ =>
        (failsWith_toText w).bind fun _ => .ok _
    · exact failsWith_calculate _ _ v w
  | subtract | multiply | divide | remainder => exact failsWith_calculate _ _ v w
  | _ => exact (failsWith_ofDigits _).bind fun _ => .ok _

namespace MathFunction

/-- Reading the arguments of a mathematical function fails soundly. -/
theorem failsWith_numbers (f : MathFunction) (arguments : List Value) : FailsWith Sound (f.numbers arguments) := by
  refine (failsWith_ofDigits _).bind fun read => .mapM (fun pair => ?_) _
  split
  · exact .ok _
  · exact .error (.plain rfl nofun)

theorem failsWith_applyOne (f : MathFunction) (n : Number) : FailsWith Sound (f.applyOne n) := by
  cases f with
  | abs => exact .ok _
  | max | min | pow => exact .error (.plain rfl nofun)
  | _ => exact (failsWith_ofNumber _).map

theorem failsWith_choose (f : MathFunction) (better : Number → Number → Number) (arguments : List Value) :
    FailsWith Sound (f.choose better arguments) := by
  unfold choose
  split
  · exact .error (.plain rfl nofun)
  · refine (failsWith_numbers f arguments).bind fun read => ?_
    split
    · exact .ok _
    · exact .error (.plain rfl nofun)

/-- A mathematical function fails soundly. -/
theorem failsWith_apply (f : MathFunction) (arguments : List Value) : FailsWith Sound (f.apply arguments) := by
  unfold apply
  split
  · exact failsWith_choose _ _ _
  · exact failsWith_choose _ _ _
  · refine (failsWith_numbers _ _).bind fun read => ?_
    split
    · exact (failsWith_ofNumber _).map
    · exact .error (.plain rfl nofun)
  · exact .error (.plain rfl nofun)
  · refine (failsWith_numbers _ _).bind fun read => ?_
    split
    · exact failsWith_applyOne _ _
    · exact .error (.plain rfl nofun)
  · exact .error (.plain rfl nofun)

end MathFunction

theorem Value.failsWith_parseInt (v : Value) : FailsWith Sound v.parseInt := by
  refine (failsWith_ofObstacle v.failsWith_leadingInteger?).bind fun read => ?_
  split
  · exact .ok _
  · exact .error (.plain rfl nofun)

theorem Value.failsWith_toNumber (v : Value) : FailsWith Sound v.toNumber := by
  unfold toNumber
  split
  · exact .ok _
  · refine (failsWith_ofDigits _).bind fun read => ?_
    split
    · exact .ok _
    · exact .error (.plain rfl nofun)

/-- A builtin function fails soundly. -/
theorem Builtin.failsWith_apply (f : Builtin) (arguments : List Value) : FailsWith Sound (f.apply arguments) := by
  unfold apply
  split
  · exact (Value.failsWith_parseInt _).map
  · exact (Value.failsWith_parseInt _).map
  · exact (Value.failsWith_toNumber _).map
  · exact MathFunction.failsWith_apply _ _
  · exact .error (.plain rfl nofun)

/-- A call fails soundly. -/
theorem Value.failsWith_call (callee : Value) (arguments : List Value) : FailsWith Sound (callee.call arguments) := by
  unfold call
  split
  · exact Builtin.failsWith_apply _ arguments
  · exact .error (.plain rfl nofun)

theorem Value.failsWith_lookup (name : Text) (entries : Entries Value) : FailsWith Sound (lookup name entries) :=
  failsWith_ofDigits _

/-- Reading a member is told with the member. -/
theorem Value.failsWith_member (target : Value) {key : Text} (h : key.IsWord) : FailsWith Sound (target.member key) := by
  unfold member
  split
  · split
    · exact .ok _
    · exact .error (.ofWord rfl h)
  · exact failsWith_lookup _ _
  · split
    · rename_i get hget
      exact (failsWith_ofObject fun _ => .get hget).bind fun _ => failsWith_ofDigits _
    · exact .error (.ofWord rfl h)
  · exact .error (.ofWord rfl h)

namespace Expr

variable {context : Entries Value}

mutual

/-- The evaluation of an expression fails soundly, if its names are names. By recursion on the expression: the fault is that of a
part, or of what is done with the parts. -/
theorem failsWith_eval : (e : Expr) → e.Named → FailsWith Sound (e.eval context)
  | literal _, _ => .ok _
  | var _, _ => Value.failsWith_lookup _ _
  | name _, hn => by
    rw [eval]
    split
    · exact .ok _
    · exact .error (.ofWord rfl (Text.isWord_of_isName hn))
  | member target _, hn =>
    (failsWith_eval target hn.1).bind fun v => v.failsWith_member (Text.isWord_of_isName hn.2)
  | call callee arguments, hn =>
    (failsWith_eval callee hn.1).bind fun v => (failsWith_evalAll arguments hn.2).bind v.failsWith_call
  | unary op operand, hn => (failsWith_eval operand hn).bind op.failsWith_apply
  | binary op left right, hn =>
    (failsWith_eval left hn.1).bind fun v => (failsWith_eval right hn.2).bind (op.failsWith_apply v)
  | logical .and left right, hn => by
    refine (failsWith_eval left hn.1).bind fun v => ?_
    split
    · exact failsWith_eval right hn.2
    · exact .ok _
  | logical .or left right, hn => by
    refine (failsWith_eval left hn.1).bind fun v => ?_
    split
    · exact .ok _
    · exact failsWith_eval right hn.2

theorem failsWith_evalAll : (es : List Expr) → NamedAll es → FailsWith Sound (evalAll context es)
  | [], _ => .ok _
  | e :: rest, hn => (failsWith_eval e hn.1).bind fun _ => (failsWith_evalAll rest hn.2).bind fun _ => .ok _

end

end Expr

/-- The evaluation of a text fails soundly. -/
theorem failsWith_evaluate (context : Entries Value) (expression : Text) : FailsWith Sound (evaluate context expression) := by
  intro fault h
  obtain h | ⟨e, he, h⟩ := bind_error_iff.1 h
  · obtain ⟨e, -, rfl⟩ := mapError_error_iff.1 h
    exact .plain rfl nofun
  · exact Expr.failsWith_eval e (Expr.named_of_parse (mapError_ok_iff.1 he)) fault h

end

/-! ## What an evaluation raises -/

/-- What is raised in an evaluation. Some errors have no words that are known. -/
inductive Raised
  /-- An error of evaluation, and the expression that it names if it names one. -/
  | evaluation (said : Option Text) (expression : Option Text)
  /-- An error of arithmetic. -/
  | arithmetic (said : Text)
  /-- An error of a value, as in reading or writing an integer. -/
  | value (said : Text)
  /-- An error of a type, as in a call with a wrong count of arguments. -/
  | type (said : Option Text)
  /-- The stack runs out. -/
  | recursion (said : Option Text)
  /-- An error of another kind, which only an object raises. -/
  | other (said : Text)

namespace Raised

/-- A place in an evaluation where the stack may run out. -/
inductive Stage
  /-- The text is read. -/
  | reading
  /-- A part of the expression, told by the path to it, is looked at. -/
  | entering (path : List Nat)
  /-- Something is done with the values of the parts of a part. -/
  | working (path : List Nat)

/-- Where the stack runs out, if the evaluation comes there. -/
abbrev Stack := Stage → Bool

/-- An error of evaluation as it is made: the expression, if there is one, is put behind its words. -/
def ofEvaluation (said : Option Text) : Option Text → Raised
  | none => evaluation said none
  | some expression => evaluation (said.map (· ++ Failure.label expression)) (some expression)

/-- What an error of an object raises. -/
def ofObject (e : ObjectError) : Raised :=
  match e.kind with
  | .arithmetic => arithmetic e.message
  | .value => value e.message
  | .type => type (some e.message)
  | .recursion => recursion (some e.message)
  | .other => other e.message

/-- What an obstacle raises. -/
def ofObstacle : Obstacle → Raised
  | .tooManyDigits d => value d.message
  | .object e => ofObject e

/-- What a fault of arithmetic raises. -/
def ofNumber (e : Number.Fault) : Raised :=
  match e with
  | .divisionByZero => ofEvaluation (some e.message) none
  | .integerTooLarge | .quotientTooLarge | .undefined .range | .infinityToInteger => arithmetic e.message
  | .undefined .domain | .nanToInteger => value e.message

/-- What the parser raises at an expression. -/
def ofParse (expression : Text) (e : ParseError) : Raised :=
  match e with
  | .tooManyDigits d => value d.message
  | e => ofEvaluation (some e.message) (some expression)

/-- What becomes of what is raised in the evaluation of an expression: an error of evaluation that names an expression passes, as
does one of another kind, and anything else is made one that names this expression. -/
def relabel (expression : Text) : Raised → Raised
  | evaluation said none => ofEvaluation said (some expression)
  | evaluation said (some named) => evaluation said (some named)
  | arithmetic said | value said => ofEvaluation (some said) (some expression)
  | type said | recursion said => ofEvaluation said (some expression)
  | other said => other said

/-- A part of an evaluation, where the stack may run out before it. -/
def guarded {α : Type} (stack : Stack) (stage : Stage) (result : Except Raised α) : Except Raised α :=
  if stack stage then .error (recursion none) else result

section

variable [World] (expression : Text)

/-- What a fault of the evaluator raises. Where its words cannot be found, that is raised in its place. -/
def ofFault (fault : Fault) : Raised :=
  match fault with
  | .malformed e => ofParse expression e
  | .arithmetic e => ofNumber e
  | .argumentCount _ => type none
  | fault =>
    match fault.words with
    | .ok said => ofEvaluation said none
    | .error obstacle => ofObstacle obstacle

/-- A part of an evaluation, with its fault raised. -/
def raise {α : Type} (result : Except Fault α) : Except Raised α := Except.mapError (ofFault expression) result

variable (stack : Stack)

/-- What is done with the values of the parts of the part at a path. -/
def work {α : Type} (path : List Nat) (result : Except Fault α) : Except Raised α :=
  guarded stack (.working path) (raise expression result)

variable (context : Entries Value)

mutual

/-- The evaluation of the part of an expression at a path, where each part raises its own faults. -/
def eval (path : List Nat) (e : Expr) : Except Raised Value :=
  guarded stack (.entering path) <|
    match e with
    | .literal l => .ok l.toValue
    | .var key => work expression stack path (Value.lookup key context)
    | .name key =>
      match Value.ofGlobal? key with
      | some v => .ok v
      | none => work expression stack path (.error (.unknownName key))
    | .member target key => do work expression stack path ((← eval (0 :: path) target).member key)
    | .call callee arguments => do
      let callee ← eval (0 :: path) callee
      let given ← evalAll (1 :: path) arguments
      work expression stack path (callee.call given)
    | .unary op operand => do work expression stack path (op.apply (← eval (0 :: path) operand))
    | .binary op left right => do
      let left ← eval (0 :: path) left
      let right ← eval (1 :: path) right
      work expression stack path (op.apply left right)
    | .logical .and left right => do
      let left ← eval (0 :: path) left
      if left.truthy then eval (1 :: path) right else return left
    | .logical .or left right => do
      let left ← eval (0 :: path) left
      if left.truthy then return left else eval (1 :: path) right

/-- The evaluation of expressions, one after another. -/
def evalAll (path : List Nat) : List Expr → Except Raised (List Value)
  | [] => .ok []
  | e :: rest => do
    let v ← eval (0 :: path) e
    return v :: (← evalAll (1 :: path) rest)

end

/-- The evaluation of a text, with what is raised in it caught. -/
def evaluate : Except Raised Value :=
  Except.mapError (relabel expression) do
    let e ← guarded stack .reading (Except.mapError (ofParse expression) (Expr.parse expression))
    eval expression stack context [] e

/-! ## Faults and what they raise -/

/-- What is raised is what the fault of a result raises, or that the stack has run out somewhere. -/
def Follows {α : Type} (raised : Except Raised α) (result : Except Fault α) : Prop :=
  raised = raise expression result ∨ raised = .error (recursion none) ∧ ∃ stage, stack stage = true

variable {expression stack context}

namespace Follows

variable {α β : Type} {raised : Except Raised α} {result : Except Fault α}

theorem bind {next : α → Except Raised β} {f : α → Except Fault β} (h : Follows expression stack raised result)
    (hnext : ∀ a, Follows expression stack (next a) (f a)) : Follows expression stack (raised >>= next) (result >>= f) := by
  rcases h with rfl | ⟨rfl, hstage⟩
  · cases result with
    | error fault => exact .inl rfl
    | ok a => exact hnext a
  · exact .inr ⟨rfl, hstage⟩

theorem guarded (stage : Stage) (h : Follows expression stack raised result) :
    Follows expression stack (guarded stack stage raised) result := by
  unfold Raised.guarded
  split
  · rename_i hstage
    exact .inr ⟨rfl, stage, hstage⟩
  · exact h

theorem work (path : List Nat) : Follows expression stack (work expression stack path result) result :=
  guarded _ (.inl rfl)

end Follows

mutual

/-- What is raised in an evaluation is what the fault of the evaluation raises, however deep it is, unless the stack runs out. -/
theorem eval_follows (path : List Nat) : (e : Expr) →
    Follows expression stack (eval expression stack context path e) (e.eval context)
  | .literal _ => .guarded _ (.inl rfl)
  | .var _ => .guarded _ (.work _)
  | .name key => by
    refine .guarded _ ?_
    rw [Expr.eval]
    cases Value.ofGlobal? key with
    | some v => exact .inl rfl
    | none => exact .work _
  | .member target _ => .guarded _ ((eval_follows _ target).bind fun _ => .work _)
  | .call callee arguments =>
    .guarded _ ((eval_follows _ callee).bind fun _ => (evalAll_follows _ arguments).bind fun _ => .work _)
  | .unary _ operand => .guarded _ ((eval_follows _ operand).bind fun _ => .work _)
  | .binary _ left right =>
    .guarded _ ((eval_follows _ left).bind fun _ => (eval_follows _ right).bind fun _ => .work _)
  | .logical .and left right => by
    refine .guarded _ ((eval_follows _ left).bind fun v => ?_)
    split
    · exact eval_follows _ right
    · exact .inl rfl
  | .logical .or left right => by
    refine .guarded _ ((eval_follows _ left).bind fun v => ?_)
    split
    · exact .inl rfl
    · exact eval_follows _ right

theorem evalAll_follows (path : List Nat) : (es : List Expr) →
    Follows expression stack (evalAll expression stack context path es) (Expr.evalAll context es)
  | [] => .inl rfl
  | e :: rest => (eval_follows _ e).bind fun _ => (evalAll_follows _ rest).bind fun _ => .inl rfl

end

/-- What the evaluation of a text gives is the fault of the evaluation, raised and caught, or that the stack has run out, caught. -/
theorem evaluate_eq : evaluate expression stack context =
      Except.mapError (fun fault => relabel expression (ofFault expression fault)) (Stencil.evaluate context expression) ∨
    evaluate expression stack context = .error (evaluation none (some expression)) ∧ ∃ stage, stack stage = true := by
  have hread : Follows expression stack (Except.mapError (ofParse expression) (Expr.parse expression))
      (Except.mapError Fault.malformed (Expr.parse expression)) := by
    refine .inl ?_
    cases Expr.parse expression <;> rfl
  have hfollows : Follows expression stack _ (Stencil.evaluate context expression) :=
    (hread.guarded .reading).bind (eval_follows [])
  unfold evaluate
  rcases hfollows with h | ⟨h, hstage⟩
  · refine .inl ?_
    rw [h]
    cases Stencil.evaluate context expression <;> rfl
  · refine .inr ⟨?_, hstage⟩
    rw [h]
    rfl

/-- Each fault is caught once: whatever raises it, it comes out as an error of evaluation with the expression behind its words, unless
it is let pass. -/
theorem relabel_ofFault {fault : Fault} (h : fault.escape? = none) (expression : Text) :
    relabel expression (ofFault expression fault) = ofEvaluation fault.message (some expression) := by
  have hwords : relabel expression (match fault.words with | .ok said => ofEvaluation said none | .error o => ofObstacle o) =
      ofEvaluation fault.message (some expression) := by
    unfold Fault.escape? at h
    unfold Fault.message
    rcases hresult : fault.words with (d | e) | said
    · rfl
    · rw [hresult] at h
      obtain ⟨kind, said⟩ := e
      cases kind with
      | other => cases h
      | _ => rfl
    · rfl
  cases fault with
  | malformed e => cases e <;> rfl
  | arithmetic e =>
    cases e with
    | undefined reason => cases reason <;> rfl
    | _ => rfl
  | argumentCount f => rfl
  | _ => exact hwords

end

end Raised

/-- Every failure of an evaluation names its expression, once. In every context an expression has a value, or it fails as an
evaluation does: whatever is raised in it, at whatever depth, comes out as an error of evaluation that names the expression. Its
words are those of the fault and then the expression. The words of the fault do not end with the expression, unless an object of the
caller's says so, and they are known, unless a function was called with a wrong count of arguments. Wherever the stack runs out, that
comes out as such an error too, with words that are not known. -/
theorem Machine.eval_labelled [World] (h : World.Caught) (m : Machine) (expression : Text) (stack : Raised.Stack) :
    (∃ v, m.eval expression = .ok v ∧ Raised.evaluate expression stack m.context = .ok v) ∨
    (∃ fault said, m.eval expression = .error (.evaluation fault (some expression)) ∧ fault.message = said ∧
      Raised.evaluate expression stack m.context =
        .error (.evaluation (said.map (· ++ Failure.label expression)) (some expression)) ∧
      (Failure.evaluation fault (some expression)).message = said.map (· ++ Failure.label expression) ∧
      (∀ words ∈ said, Failure.label expression <:+ words →
        ∃ t, fault.SaidByObject t ∧ (Failure.label expression).tail <:+ t) ∧
      (said = none → ∃ f, fault = .argumentCount f)) ∨
    (∃ stage, stack stage = true) ∧ Raised.evaluate expression stack m.context = .error (.evaluation none (some expression)) := by
  rcases @Raised.evaluate_eq _ expression stack m.context with hraised | ⟨hraised, hstage⟩
  · unfold Machine.eval
    cases heval : Stencil.evaluate m.context expression with
    | ok v =>
      rw [heval] at hraised
      exact .inl ⟨v, rfl, hraised⟩
    | error fault =>
      have hsound := failsWith_evaluate m.context expression fault heval
      have hescape := hsound.escape?_eq_none h
      rw [heval] at hraised
      refine .inr (.inl ⟨fault, _, rfl, rfl, ?_, Failure.message_evaluation hescape expression, fun words hwords => ?_,
        Fault.message_eq_none_iff.1⟩)
      · rw [hraised]
        exact congrArg Except.error (Raised.relabel_ofFault hescape expression)
      · exact Fault.label_suffix hsound.word hwords
  · exact .inr (.inr ⟨hstage, hraised⟩)

open scoped World in
/-- A name that is unknown under an operator, with the expression once behind the words. -/
theorem Machine.eval_labelled_unknown_name : Raised.evaluate "!b" (fun _ => false) (start Context.builtins []).context =
    .error (.evaluation (some ("Unknown name 'b'".toList ++ " in expression: '!b'".toList)) (some "!b".toList)) := by
  have hscan : Lexeme.scan 0 ['!', 'b'] = .ok [⟨.symbol, "!", 0⟩, ⟨.name, "b", 1⟩] := by
    rw [Lexeme.scan_cons (n := 0) (k := .symbol) rfl rfl, List.drop_zero, Lexeme.scan_single (k := .name) rfl rfl]
    rfl
  have hparse : Expr.parse ['!', 'b'] = .ok (.unary .not (.name "b")) := by
    have hoperand : Expr.Derives (.suffixed (.name "b")) [⟨.name, "b", 1⟩] :=
      .ofPrimary (.name (l := ⟨.name, "b", 1⟩) rfl fun value h => by simp [Expr.keywords] at h)
    have hunary : Expr.Derives (.level 0 (.unary .not (.name "b"))) [⟨.symbol, "!", 0⟩, ⟨.name, "b", 1⟩] :=
      .signed rfl (by decide) (.ofSuffixed hoperand)
    exact (Expr.parse_eq_ok_iff hscan _).2
      (.ofTighter (.ofTighter (.ofTighter (.ofTighter (.ofTighter (.ofTighter hunary))))))
  have hlabel : Failure.label ['!', 'b'] = " in expression: '!b'".toList := by decide +kernel
  obtain ⟨v, hv, -⟩ | ⟨fault, said, hfault, hsaid, hraised, -⟩ | ⟨⟨stage, hstage⟩, -⟩ :=
    (start Context.builtins []).eval_labelled (fun e he => absurd he (World.not_raises_plain e)) ['!', 'b'] fun _ => false
  · unfold eval Stencil.evaluate at hv
    rw [hparse] at hv
    cases hv
  · unfold eval Stencil.evaluate at hfault
    rw [hparse] at hfault
    cases hfault
    rw [← hsaid, hlabel] at hraised
    exact hraised
  · cases hstage

end Stencil
