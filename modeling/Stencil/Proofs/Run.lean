import Stencil.Proofs.Except
import Stencil.Proofs.Grammar.Parse
import Stencil.Render.Machine

/-!
# Steps, runs and sessions of the machine

What handling one token can do. `Steps` lists the steps that succeed, each with its condition and its whole effect, and
`steps_of_step` says that there are no others; `Fails` and `fails_of_step` do the same for the steps that fail. What each of
these steps keeps, a run on tokens keeps (`feed_keeps`) and so does a session of runs and assignments (`after_keeps`), whichever
of its runs fail. A run is taken apart at any place of its list of tokens (`feed_append`), and at the one that fails
(`feed_eq_error_iff`).
-/

namespace Stencil

/-- No branch of the chain will be taken any more: its surroundings are inactive, or a branch has been taken. -/
def Frame.decided (frame : Frame) : Bool := !frame.parentActive || frame.branchTaken

/-- A chain is still to be decided exactly if its surroundings are active and no branch has been taken. -/
theorem Frame.decided_eq_false {frame : Frame} :
    frame.decided = false ↔ frame.parentActive = true ∧ frame.branchTaken = false := by
  simp [Frame.decided]

/-- The branch without a condition is taken exactly if the chain is still to be decided. -/
theorem Frame.taken_otherwise (frame : Frame) : (frame.parentActive && !frame.branchTaken) = !frame.decided := by
  rw [Frame.decided, Bool.not_or, Bool.not_not]

/-- The directive by which a token continues an open chain, if it does. -/
def Token.continuation? (token : Token) : Option Continuation :=
  match token.form with
  | .elseCond _ => some .elseCond
  | .otherwise => some .otherwise
  | .finish => some .finish
  | .text _ | .set _ | .cond _ => none

namespace Machine

/-- `m.Steps token m'`: the machine `m` handles the token and becomes `m'`. -/
inductive Steps [World] (m : Machine) : Token → Machine → Prop
  /-- A span of text is written. -/
  | write {o : Nat} {t fragment : Text} : m.active = true → m.interpolate t = .ok fragment →
      Steps m ⟨o, .text t⟩ { m with output := m.output ++ [fragment] }
  /-- A span of text is passed over. -/
  | passText {o : Nat} {t : Text} : m.active = false → Steps m ⟨o, .text t⟩ m
  /-- An assignment is made. -/
  | assign {o : Nat} {body : Text} {m' : Machine} : m.active = true → m.assign body o = .ok m' →
      Steps m ⟨o, .set body⟩ m'
  /-- An assignment is passed over. -/
  | passSet {o : Nat} {body : Text} : m.active = false → Steps m ⟨o, .set body⟩ m
  /-- A chain of branches is opened where its condition counts. -/
  | enter {o : Nat} {condition : Text} {met : Bool} : m.active = true → m.holds condition = .ok met →
      Steps m ⟨o, .cond condition⟩ { m with frames := ⟨true, met, met, o⟩ :: m.frames }
  /-- A chain of branches is opened where nothing is active. -/
  | passCond {o : Nat} {condition : Text} : m.active = false →
      Steps m ⟨o, .cond condition⟩ { m with frames := ⟨false, false, false, o⟩ :: m.frames }
  /-- A further branch is tried. -/
  | tryBranch {o : Nat} {condition : Text} {met : Bool} {frame : Frame} {below : List Frame} :
      m.frames = frame :: below → frame.decided = false → m.holds condition = .ok met →
      Steps m ⟨o, .elseCond condition⟩ { m with frames := { frame with active := met, branchTaken := met } :: below }
  /-- A further branch is passed over. -/
  | passBranch {o : Nat} {condition : Text} {frame : Frame} {below : List Frame} :
      m.frames = frame :: below → frame.decided = true →
      Steps m ⟨o, .elseCond condition⟩ { m with frames := { frame with active := false } :: below }
  /-- The branch without a condition is taken. -/
  | takeOtherwise {o : Nat} {frame : Frame} {below : List Frame} :
      m.frames = frame :: below → frame.decided = false →
      Steps m ⟨o, .otherwise⟩ { m with frames := { frame with active := true, branchTaken := true } :: below }
  /-- The branch without a condition is passed over. -/
  | passOtherwise {o : Nat} {frame : Frame} {below : List Frame} :
      m.frames = frame :: below → frame.decided = true →
      Steps m ⟨o, .otherwise⟩ { m with frames := { frame with active := false } :: below }
  /-- The innermost chain of branches is closed. -/
  | leave {o : Nat} {frame : Frame} {below : List Frame} :
      m.frames = frame :: below → Steps m ⟨o, .finish⟩ { m with frames := below }

/-- `m.Fails token e`: the machine `m` fails in the token with `e`. -/
inductive Fails [World] (m : Machine) : Token → Failure → Prop
  /-- A value in a span of text is too long to be written. -/
  | writeLong {o : Nat} {t : Text} {e : TooManyDigits} : m.active = true →
      Stencil.interpolate m.context t = .error (.tooManyDigits e) → Fails m ⟨o, .text t⟩ (.tooManyDigits e)
  /-- An object in a span of text fails. -/
  | writeObject {o : Nat} {t : Text} {e : ObjectError} : m.active = true →
      Stencil.interpolate m.context t = .error (.object e) → Fails m ⟨o, .text t⟩ (.object e)
  /-- The body of an assignment is none. -/
  | noAssignment {o : Nat} {body : Text} : m.active = true → Assignment.ofBody? body = none →
      Fails m ⟨o, .set body⟩ (.noAssignment body (.ofOffset m.template o))
  /-- The expression of an assignment has no value, or none that can be stored. -/
  | assign {o : Nat} {body name expression : Text} {fault : Fault} : m.active = true →
      Assignment.ofBody? body = some ⟨name, expression⟩ → name ≠ Context.reservedName →
      evaluate m.context expression >>= Value.stored = .error fault →
      Fails m ⟨o, .set body⟩ (.evaluation fault (some expression))
  /-- The first condition of a chain has no value. -/
  | enter {o : Nat} {condition : Text} {fault : Fault} : m.active = true → evaluate m.context condition = .error fault →
      Fails m ⟨o, .cond condition⟩ (.evaluation fault (some condition))
  /-- A further condition of a chain has no value. -/
  | tryBranch {o : Nat} {condition : Text} {frame : Frame} {below : List Frame} {fault : Fault} :
      m.frames = frame :: below → frame.decided = false → evaluate m.context condition = .error fault →
      Fails m ⟨o, .elseCond condition⟩ (.evaluation fault (some condition))
  /-- A directive belongs to an open chain, and there is none. -/
  | unmatched {token : Token} {directive : Continuation} : m.frames = [] → token.continuation? = some directive →
      Fails m token (.unmatched directive (.ofOffset m.template token.offset))

variable {m m' : Machine}

theorem innermost_ok_iff {directive : Continuation} {o : Nat} {frame : Frame} {below : List Frame} :
    m.innermost directive o = .ok (frame, below) ↔ m.frames = frame :: below := by
  unfold innermost
  split <;> simp_all

/-- The innermost frame is missing exactly if no chain is open, and the directive is then unmatched. -/
theorem innermost_eq_error_iff {directive : Continuation} {o : Nat} {e : Failure} :
    m.innermost directive o = .error e ↔ m.frames = [] ∧ .unmatched directive (.ofOffset m.template o) = e := by
  unfold innermost
  split <;> simp_all

variable [World]

/-- Every step that succeeds is one of those listed. -/
theorem steps_of_step {token : Token} (h : m.step token = .ok m') : m.Steps token m' := by
  obtain ⟨o, form⟩ := token
  cases form with
  | text t =>
    simp only [step] at h
    split at h
    · rename_i ha
      obtain ⟨fragment, hf, h⟩ := bind_ok_iff.1 h
      cases h
      exact .write ha hf
    · rename_i ha
      cases h
      exact .passText (Bool.not_eq_true _ ▸ ha)
  | set body =>
    simp only [step] at h
    split at h
    · rename_i ha
      exact .assign ha h
    · rename_i ha
      cases h
      exact .passSet (Bool.not_eq_true _ ▸ ha)
  | cond condition =>
    simp only [step] at h
    split at h
    · rename_i ha
      obtain ⟨met, hm, h⟩ := bind_ok_iff.1 h
      cases h
      rw [ha]
      exact .enter ha hm
    · rename_i ha
      rw [Bool.not_eq_true] at ha
      cases h
      rw [ha]
      exact .passCond ha
  | elseCond condition =>
    simp only [step] at h
    obtain ⟨⟨frame, below⟩, hf, h⟩ := bind_ok_iff.1 h
    rw [innermost_ok_iff] at hf
    split at h
    · rename_i hd
      cases h
      exact .passBranch hf hd
    · rename_i hd
      obtain ⟨met, hm, h⟩ := bind_ok_iff.1 h
      cases h
      exact .tryBranch hf (Bool.not_eq_true _ ▸ hd) hm
  | otherwise =>
    simp only [step] at h
    obtain ⟨⟨frame, below⟩, hf, h⟩ := bind_ok_iff.1 h
    rw [innermost_ok_iff] at hf
    cases h
    rw [Frame.taken_otherwise]
    cases hd : frame.decided with
    | false => simpa only [Bool.not_false, Bool.or_true] using Steps.takeOtherwise hf hd
    | true => simpa only [Bool.not_true, Bool.or_false] using Steps.passOtherwise hf hd
  | finish =>
    simp only [step] at h
    obtain ⟨⟨frame, below⟩, hf, h⟩ := bind_ok_iff.1 h
    rw [innermost_ok_iff] at hf
    cases h
    exact .leave hf

/-- A machine's evaluation fails exactly if the expression has no value, and then for that. -/
theorem eval_eq_error_iff {expression : Text} {e : Failure} :
    m.eval expression = .error e ↔
      ∃ fault, evaluate m.context expression = .error fault ∧ .evaluation fault (some expression) = e :=
  mapError_error_iff

/-- A condition fails exactly if the expression has no value, and then for that. -/
theorem holds_eq_error_iff {condition : Text} {e : Failure} :
    m.holds condition = .error e ↔
      ∃ fault, evaluate m.context condition = .error fault ∧ .evaluation fault (some condition) = e := by
  rw [← eval_eq_error_iff]
  exact bind_pure_error_iff

/-- A condition that is a literal holds as the literal does, whatever the variables are. -/
theorem holds_keyword {condition : Text} {value : Literal} (h : (condition, value) ∈ Expr.keywords) :
    m.holds condition = .ok value.toValue.truthy := by
  unfold holds eval evaluate
  rw [Expr.parse_keyword h]
  rfl

/-- A condition without lexemes fails. -/
theorem holds_nil : m.holds [] = .error (.evaluation (.malformed .empty) (some [])) := by
  have hparse : Expr.parse [] = .error .empty := Expr.parse_nil (by rw [Lexeme.scan])
  unfold holds eval evaluate
  rw [hparse]
  rfl

/-- A chain whose condition counts is opened with the branch that the condition tells. -/
theorem step_enter {o : Nat} {condition : Text} {met : Bool} (ha : m.active = true) (hm : m.holds condition = .ok met) :
    m.step ⟨o, .cond condition⟩ = .ok { m with frames := ⟨true, met, met, o⟩ :: m.frames } := by
  simp only [step, ha, if_true, hm]
  rfl

theorem step_text_of_inactive (ha : m.active = false) (o : Nat) (t : Text) : m.step ⟨o, .text t⟩ = .ok m := by
  simp only [step, ha, Bool.false_eq_true, if_false]

theorem step_set_of_inactive (ha : m.active = false) (o : Nat) (body : Text) : m.step ⟨o, .set body⟩ = .ok m := by
  simp only [step, ha, Bool.false_eq_true, if_false]

theorem step_cond_of_inactive (ha : m.active = false) (o : Nat) (condition : Text) :
    m.step ⟨o, .cond condition⟩ = .ok { m with frames := ⟨false, false, false, o⟩ :: m.frames } := by
  simp only [step, ha, Bool.false_eq_true, if_false]
  rfl

section

variable {frame : Frame} {below : List Frame}

/-- The condition of a further branch of a decided chain is not looked at. -/
theorem step_elseCond_of_decided {o : Nat} {condition : Text} (hf : m.frames = frame :: below)
    (hd : frame.decided = true) :
    m.step ⟨o, .elseCond condition⟩ = .ok { m with frames := { frame with active := false } :: below } := by
  rw [Frame.decided] at hd
  simp only [step, innermost, hf, bind, Except.bind, hd, if_true]
  rfl

/-- The branch without a condition is taken where the chain is still to be decided. -/
theorem step_otherwise {o : Nat} (hf : m.frames = frame :: below) :
    m.step ⟨o, .otherwise⟩ = .ok { m with
      frames := { frame with active := !frame.decided, branchTaken := frame.branchTaken || !frame.decided } :: below } := by
  simp only [step, innermost, hf, bind, Except.bind, Frame.taken_otherwise]
  rfl

theorem step_otherwise_of_decided {o : Nat} (hf : m.frames = frame :: below) (hd : frame.decided = true) :
    m.step ⟨o, .otherwise⟩ = .ok { m with frames := { frame with active := false } :: below } := by
  rw [step_otherwise hf, hd, Bool.not_true, Bool.or_false]

theorem step_finish {o : Nat} (hf : m.frames = frame :: below) :
    m.step ⟨o, .finish⟩ = .ok { m with frames := below } := by
  simp only [step, innermost, hf]
  rfl

end

/-- An assignment that fails is none, or its expression has no value that can be stored. -/
theorem assign_fails {body : Text} {o : Nat} {e : Failure} (ha : m.active = true) (h : m.assign body o = .error e) :
    m.Fails ⟨o, .set body⟩ e := by
  unfold assign at h
  split at h
  · rename_i hb
    cases h
    exact .noAssignment ha hb
  · rename_i name expression hb
    split at h
    · cases h
    · rename_i hn
      obtain h | ⟨value, hv, h⟩ := bind_error_iff.1 h
      · obtain ⟨fault, hfault, rfl⟩ := eval_eq_error_iff.1 h
        exact .assign ha hb hn (bind_error_iff.2 (.inl hfault))
      · have hvalue : evaluate m.context expression = .ok value := mapError_ok_iff.1 hv
        obtain h | ⟨stored, -, h⟩ := bind_error_iff.1 h
        · obtain ⟨fault, hfault, rfl⟩ := mapError_error_iff.1 h
          exact .assign ha hb hn (bind_error_iff.2 (.inr ⟨value, hvalue, hfault⟩))
        · cases h

/-- Every step that fails is one of those listed. -/
theorem fails_of_step {token : Token} {e : Failure} (h : m.step token = .error e) : m.Fails token e := by
  obtain ⟨o, form⟩ := token
  cases form with
  | text t =>
    simp only [step] at h
    split at h
    · rename_i ha
      obtain h | ⟨fragment, -, h⟩ := bind_error_iff.1 h
      · obtain ⟨obstacle, hobstacle, rfl⟩ := mapError_error_iff.1 h
        cases obstacle with
        | tooManyDigits e => exact .writeLong ha hobstacle
        | object e => exact .writeObject ha hobstacle
      · cases h
    · cases h
  | set body =>
    simp only [step] at h
    split at h
    · rename_i ha
      exact assign_fails ha h
    · cases h
  | cond condition =>
    simp only [step] at h
    split at h
    · rename_i ha
      obtain h | ⟨met, -, h⟩ := bind_error_iff.1 h
      · obtain ⟨fault, hfault, rfl⟩ := holds_eq_error_iff.1 h
        exact .enter ha hfault
      · cases h
    · cases h
  | elseCond condition =>
    simp only [step] at h
    obtain h | ⟨⟨frame, below⟩, hf, h⟩ := bind_error_iff.1 h
    · obtain ⟨hf, rfl⟩ := innermost_eq_error_iff.1 h
      exact .unmatched hf rfl
    · rw [innermost_ok_iff] at hf
      split at h
      · cases h
      · rename_i hd
        obtain h | ⟨met, -, h⟩ := bind_error_iff.1 h
        · obtain ⟨fault, hfault, rfl⟩ := holds_eq_error_iff.1 h
          exact .tryBranch hf (Bool.not_eq_true _ ▸ hd) hfault
        · cases h
  | otherwise =>
    simp only [step] at h
    obtain h | ⟨⟨frame, below⟩, -, h⟩ := bind_error_iff.1 h
    · obtain ⟨hf, rfl⟩ := innermost_eq_error_iff.1 h
      exact .unmatched hf rfl
    · cases h
  | finish =>
    simp only [step] at h
    obtain h | ⟨⟨frame, below⟩, -, h⟩ := bind_error_iff.1 h
    · obtain ⟨hf, rfl⟩ := innermost_eq_error_iff.1 h
      exact .unmatched hf rfl
    · cases h

/-- What an assignment that succeeds does: one to the reserved name is noted and dropped, any other is evaluated and stored. -/
theorem assign_cases {body : Text} {o : Nat} (h : m.assign body o = .ok m') :
    ∃ name expression, Assignment.ofBody? body = some ⟨name, expression⟩ ∧
      ((name = Context.reservedName ∧ m' = { m with log := m.log ++ [.reservedAssignment name] }) ∨
        (name ≠ Context.reservedName ∧ ∃ value stored, m.eval expression = .ok value ∧ value.stored = .ok stored ∧
          m' = { m with context := m.context.assign name stored })) := by
  unfold assign at h
  split at h
  · cases h
  · rename_i name expression hb
    refine ⟨name, expression, hb, ?_⟩
    split at h
    · rename_i hn
      cases h
      exact .inl ⟨hn, rfl⟩
    · rename_i hn
      obtain ⟨value, hv, h⟩ := bind_ok_iff.1 h
      obtain ⟨stored, hs, h⟩ := bind_ok_iff.1 h
      cases h
      exact .inr ⟨hn, value, stored, hv, mapError_ok_iff.1 hs, rfl⟩

theorem assign_frames {body : Text} {o : Nat} (h : m.assign body o = .ok m') : m'.frames = m.frames := by
  obtain ⟨name, expression, -, ⟨-, rfl⟩ | ⟨-, value, stored, -, -, rfl⟩⟩ := assign_cases h <;> rfl

/-! ## Runs on tokens -/

theorem feed_singleton {token : Token} (h : m.step token = .ok m') : m.feed [token] = (m', none) := by
  simp only [feed, h]

theorem feed_singleton_error {token : Token} {e : Failure} (h : m.step token = .error e) : m.feed [token] = (m, some e) := by
  simp only [feed, h]

/-- A run on tokens in two parts, the first of which is handled whole. -/
theorem feed_append {a : List Token} (h : m.feed a = (m', none)) (b : List Token) : m.feed (a ++ b) = m'.feed b := by
  induction a generalizing m with
  | nil =>
    cases h
    rfl
  | cons token a ih =>
    simp only [List.cons_append, feed] at h ⊢
    split at h
    · cases h
    · exact ih h

/-- A run on tokens in two parts, the first of which fails. -/
theorem feed_append_error {a : List Token} {e : Failure} (h : m.feed a = (m', some e)) (b : List Token) :
    m.feed (a ++ b) = (m', some e) := by
  induction a generalizing m with
  | nil => cases h
  | cons token a ih =>
    simp only [List.cons_append, feed] at h ⊢
    split at h
    · exact h
    · exact ih h

/-- A run on tokens fails exactly where a token fails that the run on those before it comes to. -/
theorem feed_eq_error_iff {tokens : List Token} {e : Failure} :
    m.feed tokens = (m', some e) ↔
      ∃ before token after, tokens = before ++ token :: after ∧ m.feed before = (m', none) ∧ m'.step token = .error e := by
  constructor
  · intro h
    induction tokens generalizing m with
    | nil => cases h
    | cons token tokens ih =>
      simp only [feed] at h
      split at h
      · rename_i hs
        cases h
        exact ⟨[], token, tokens, rfl, rfl, hs⟩
      · rename_i next hs
        obtain ⟨before, failing, after, rfl, hf, hfail⟩ := ih h
        refine ⟨token :: before, failing, after, rfl, ?_, hfail⟩
        simp only [feed, hs, hf]
  · rintro ⟨before, token, after, rfl, hf, hs⟩
    rw [feed_append hf]
    simp only [feed, hs]

/-- What every step keeps, a run keeps, also one that fails part way. -/
theorem feed_keeps (Keeps : Machine → Prop) (hstep : ∀ {m m' token}, Steps m token m' → Keeps m → Keeps m')
    (tokens : List Token) (hm : Keeps m) : Keeps (m.feed tokens).1 := by
  induction tokens generalizing m with
  | nil => exact hm
  | cons token tokens ih =>
    simp only [feed]
    split
    · exact hm
    · rename_i next hs
      exact ih (hstep (steps_of_step hs) hm)

/-- The machine after a run is the machine after handling its tokens, whether the run ends in an output or in a failure. -/
theorem run_fst (m : Machine) (tokens : List Token) : (m.run tokens).1 = (m.feed tokens).1 := by
  unfold run
  split <;> simp_all

/-- A run on tokens that are all handled gives what the machine gives in the end. -/
theorem run_of_handled {tokens : List Token} (h : m.feed tokens = (m', none)) : m.run tokens = (m', m'.finish) := by
  unfold run
  rw [h]

theorem run_of_failed {tokens : List Token} {e : Failure} (h : m.feed tokens = (m', some e)) :
    m.run tokens = (m', .error e) := by
  unfold run
  rw [h]

/-- A run that starts with a token that is handled goes on from the machine after it. -/
theorem run_cons {token : Token} (h : m.step token = .ok m') (tokens : List Token) :
    m.run (token :: tokens) = m'.run tokens := by
  simp only [run, feed, h]

theorem run_cons_error {token : Token} {e : Failure} (h : m.step token = .error e) (tokens : List Token) :
    m.run (token :: tokens) = (m, .error e) := by
  simp only [run, feed, h]

/-! ## Sessions -/

/-- What is done with a machine from outside. -/
inductive Event
  /-- It is run on tokens. A failure leaves it as the token before left it. -/
  | run (tokens : List Token)
  /-- A value is stored in its context. -/
  | assign (name : Text) (value : Value)

/-- The machine after an event. -/
def afterEvent (m : Machine) : Event → Machine
  | .run tokens => (m.run tokens).1
  | .assign name value => { m with context := m.context.assign name value }

/-- The machine after a session: events one after another. -/
def after (m : Machine) (events : List Event) : Machine := events.foldl afterEvent m

/-- What every step and every change of the context keeps, a session keeps. -/
theorem after_keeps (Keeps : Machine → Prop) (hstep : ∀ {m m' token}, Steps m token m' → Keeps m → Keeps m')
    (hassign : ∀ {m : Machine} (name : Text) (value : Value), Keeps m →
      Keeps { m with context := m.context.assign name value })
    (events : List Event) (hm : Keeps m) : Keeps (m.after events) := by
  induction events generalizing m with
  | nil => exact hm
  | cons event events ih =>
    rw [after, List.foldl_cons]
    apply ih
    cases event with
    | run tokens =>
      rw [afterEvent, run_fst]
      exact feed_keeps Keeps hstep tokens hm
    | assign name value => exact hassign name value hm

end Machine

end Stencil
