import Stencil.Proofs.Run

/-!
# Tokens handled in place

`Machine.step` gives a new machine or a failure, so it does not tell what a token that fails leaves behind. Here a token is
handled in place (`InPlace.handle`): one part of the machine is changed after another, and what has been changed stays changed
when something fails later. A token that fails still leaves the machine as it was (`InPlace.run_handle`), because everything
that can fail comes before the first change. So a run can be cut at any token, and made in parts (`run_incremental`).
-/

namespace Stencil

/-- A program that changes a machine in place. One that fails leaves the changes that it has made. -/
abbrev InPlace := EStateM Failure Machine

namespace InPlace

/-- Computes something from the machine, which may fail. -/
def compute {α : Type} (f : Machine → Except Failure α) : InPlace α := fun m =>
  match f m with
  | .ok a => .ok a m
  | .error e => .error e m

/-- Changes the innermost frame. -/
def changeInnermost (change : Frame → Frame) : InPlace Unit :=
  modify fun m => { m with frames := m.frames.modifyHead change }

/-- Makes an assignment. -/
def assign [World] (body : Text) (offset : Nat) : InPlace Unit :=
  match Assignment.ofBody? body with
  | none => compute fun m => .error (.noAssignment body (.ofOffset m.template offset))
  | some ⟨name, expression⟩ =>
    if name = Context.reservedName then
      modify fun m => { m with log := m.log ++ [.reservedAssignment name] }
    else do
      let value ← compute (·.eval expression)
      let stored ← compute fun _ => value.stored.mapError fun fault => Failure.evaluation fault (some expression)
      modify fun m => { m with context := m.context.assign name stored }

/-- Handles a token. -/
def handle [World] (token : Token) : InPlace Unit := do
  match token.form with
  | .text t =>
    if (← get).active then
      let fragment ← compute (·.interpolate t)
      modify fun m => { m with output := m.output ++ [fragment] }
  | .set body =>
    if (← get).active then assign body token.offset
  | .cond condition =>
    let active := (← get).active
    let met ← if active then compute (·.holds condition) else pure false
    modify fun m => { m with frames := ⟨active, met, met, token.offset⟩ :: m.frames }
  | .elseCond condition =>
    let (frame, _) ← compute (·.innermost .elseCond token.offset)
    if !frame.parentActive || frame.branchTaken then
      changeInnermost fun frame => { frame with active := false }
    else
      let met ← compute (·.holds condition)
      changeInnermost fun frame => { frame with active := met }
      changeInnermost fun frame => { frame with branchTaken := met }
  | .otherwise =>
    let (frame, _) ← compute (·.innermost .otherwise token.offset)
    let taken := frame.parentActive && !frame.branchTaken
    changeInnermost fun frame => { frame with active := taken }
    changeInnermost fun frame => { frame with branchTaken := frame.branchTaken || taken }
  | .finish =>
    let _ ← compute (·.innermost .finish token.offset)
    modify fun m => { m with frames := m.frames.tail }

/-- Handles tokens one after another. -/
def handleAll [World] : List Token → InPlace Unit
  | [] => pure ()
  | token :: rest => do
    handle token
    handleAll rest

/-- Handles tokens and gives the whole output, once no chain of branches is open. -/
def runTokens [World] (tokens : List Token) : InPlace Text := do
  handleAll tokens
  compute Machine.finish

/-! ## A failing token changes nothing -/

variable {m : Machine}

/-- What a program gives that leaves a machine, or fails and leaves the one that it began with. -/
def settled (m : Machine) : Except Failure Machine → EStateM.Result Failure Machine Unit
  | .ok m' => .ok () m'
  | .error e => .error e m

/-- Computing comes before changing: a program that first computes something leaves the machine that it began with if that fails,
and otherwise does what the rest does from there. -/
theorem settled_compute {α : Type} {f : Machine → Except Failure α} {rest : α → InPlace Unit}
    {after : α → Except Failure Machine} (h : ∀ a, f m = .ok a → (rest a).run m = settled m (after a)) :
    (compute f >>= rest).run m = settled m (f m >>= after) := by
  rw [EStateM.run_bind]
  cases hf : f m with
  | error e =>
    simp only [EStateM.run, compute, hf]
    rfl
  | ok a =>
    simp only [EStateM.run, compute, hf]
    exact h a hf

section

variable [World]

/-- An assignment in place that fails changes nothing. -/
theorem run_assign (m : Machine) (body : Text) (offset : Nat) :
    (assign body offset).run m = settled m (m.assign body offset) := by
  unfold assign Machine.assign
  cases Assignment.ofBody? body with
  | none => rfl
  | some a =>
    obtain ⟨name, expression⟩ := a
    simp only
    split
    · rfl
    · exact settled_compute fun value _ => settled_compute fun stored _ => rfl

/-- A token handled in place leaves the machine after it, or, if it fails, the machine before it. -/
theorem run_handle (m : Machine) (token : Token) : (handle token).run m = settled m (m.step token) := by
  obtain ⟨o, form⟩ := token
  cases form with
  | text t =>
    simp only [handle, Machine.step, EStateM.run_bind, EStateM.run_get]
    cases m.active with
    | false => rfl
    | true => exact settled_compute fun fragment _ => rfl
  | set body =>
    simp only [handle, Machine.step, EStateM.run_bind, EStateM.run_get]
    cases m.active with
    | false => rfl
    | true => exact run_assign m body o
  | cond condition =>
    simp only [handle, Machine.step, EStateM.run_bind, EStateM.run_get]
    cases m.active with
    | false => rfl
    | true => exact settled_compute fun met _ => rfl
  | elseCond condition =>
    refine settled_compute fun top hf => ?_
    obtain ⟨frame, below⟩ := top
    rw [Machine.innermost_ok_iff] at hf
    simp only
    split
    · simp only [changeInnermost, EStateM.run_modify, hf]
      rfl
    · refine settled_compute fun met _ => ?_
      simp only [changeInnermost, EStateM.run_bind, EStateM.run_modify, hf]
      rfl
  | otherwise =>
    refine settled_compute fun top hf => ?_
    obtain ⟨frame, below⟩ := top
    rw [Machine.innermost_ok_iff] at hf
    simp only [changeInnermost, EStateM.run_bind, EStateM.run_modify, hf]
    rfl
  | finish =>
    refine settled_compute fun top hf => ?_
    obtain ⟨frame, below⟩ := top
    rw [Machine.innermost_ok_iff] at hf
    simp only [EStateM.run_modify, hf]
    rfl

/-! ## Runs in place -/

/-- Tokens handled in place one after another end where the machine's run on them does. -/
theorem run_handleAll (m : Machine) (tokens : List Token) :
    (handleAll tokens).run m = match m.feed tokens with
      | (m', none) => .ok () m'
      | (m', some e) => .error e m' := by
  induction tokens generalizing m with
  | nil => rfl
  | cons token tokens ih =>
    simp only [handleAll, EStateM.run_bind, run_handle, Machine.feed]
    cases m.step token with
    | error e => rfl
    | ok next => exact ih next

/-- Tokens are handled in place without a failure exactly if the machine's run on them has none. -/
theorem run_handleAll_eq_ok_iff {tokens : List Token} {m' : Machine} :
    (handleAll tokens).run m = .ok () m' ↔ m.feed tokens = (m', none) := by
  rw [run_handleAll]
  rcases m.feed tokens with ⟨n, e | e⟩ <;> simp

/-- Tokens are handled in place up to a failure exactly if the machine's run on them has it. -/
theorem run_handleAll_eq_error_iff {tokens : List Token} {m' : Machine} {e : Failure} :
    (handleAll tokens).run m = .error e m' ↔ m.feed tokens = (m', some e) := by
  rw [run_handleAll]
  rcases m.feed tokens with ⟨n, e' | e'⟩ <;> simp [and_comm]

/-- A machine and a result as what a program gives. -/
def ended {α : Type} : Machine × Except Failure α → EStateM.Result Failure Machine α
  | (m, .ok a) => .ok a m
  | (m, .error e) => .error e m

/-- A run in place is the run of the machine. -/
theorem run_runTokens (m : Machine) (tokens : List Token) : (runTokens tokens).run m = ended (m.run tokens) := by
  simp only [runTokens, EStateM.run_bind, run_handleAll, Machine.run]
  rcases m.feed tokens with ⟨n, e | e⟩
  · simp only [EStateM.run, compute]
    cases n.finish <;> rfl
  · rfl

end

end InPlace

namespace Machine

variable {m m' : Machine}

/-! ## Output only grows -/

section

variable [World]

/-- A step adds to the output or leaves it. -/
theorem output_step {token : Token} (hs : m.Steps token m') : m.output <+: m'.output := by
  cases hs with
  | write => exact List.prefix_append _ _
  | assign _ ha =>
    obtain ⟨name, expression, -, ⟨-, rfl⟩ | ⟨-, value, stored, -, -, rfl⟩⟩ := assign_cases ha <;> exact List.prefix_rfl
  | _ => exact List.prefix_rfl

theorem output_feed (m : Machine) (tokens : List Token) : m.output <+: (m.feed tokens).1.output :=
  feed_keeps (fun n => m.output <+: n.output) (fun hs h => h.trans (output_step hs)) tokens List.prefix_rfl

theorem output_after (m : Machine) (events : List Event) : m.output <+: (m.after events).output :=
  after_keeps (fun n => m.output <+: n.output) (fun hs h => h.trans (output_step hs)) (fun _ _ h => h) events
    List.prefix_rfl

/-- A run on more tokens adds to the output of the run on the first of them. -/
theorem output_feed_append (m : Machine) (a b : List Token) : (m.feed a).1.output <+: (m.feed (a ++ b)).1.output := by
  cases h : m.feed a with
  | mk n failure =>
    cases failure with
    | none =>
      rw [feed_append h]
      exact output_feed n b
    | some e => simp only [feed_append_error h, List.prefix_rfl]

/-- The machine after a run in two parts, the first of which is handled whole, and the result of the second part are those of one
run, also if the first part leaves a chain open. -/
theorem run_append {a : List Token} (h : m.feed a = (m', none)) (b : List Token) : m'.run b = m.run (a ++ b) := by
  unfold run
  rw [feed_append h]

/-- Runs can be cut at any token and made in parts. From every machine: a run in place is the run of the machine. A token that
fails in place, whatever it is and whatever it fails for, leaves the machine exactly as the tokens before it left it. If tokens
are handled whole, a run on them and then on others leaves the same machine as one run on all of them, and gives the same output
or the same failure, also if the first run ends with a chain left open. And all output so far is the first part of all later
output, after more of a session or more of a run. -/
theorem run_incremental (m : Machine) :
    (∀ tokens, (InPlace.runTokens tokens).run m = InPlace.ended (m.run tokens)) ∧
    (∀ tokens m' e, (InPlace.handleAll tokens).run m = .error e m' →
      ∃ before token after, tokens = before ++ token :: after ∧ (InPlace.handleAll before).run m = .ok () m' ∧
        (InPlace.handle token).run m' = .error e m') ∧
    (∀ a b m', (InPlace.handleAll a).run m = .ok () m' → (m.run a).1 = m' ∧ m'.run b = m.run (a ++ b)) ∧
    (∀ earlier later, (m.after earlier).output <+: (m.after (earlier ++ later)).output) ∧
    (∀ a b, (m.run a).1.output <+: (m.run (a ++ b)).1.output) := by
  refine ⟨InPlace.run_runTokens m, fun tokens m' e h => ?_, fun a b m' h => ?_, fun earlier later => ?_, fun a b => ?_⟩
  · rw [InPlace.run_handleAll_eq_error_iff] at h
    obtain ⟨before, token, after, rfl, hbefore, hs⟩ := feed_eq_error_iff.1 h
    refine ⟨before, token, after, rfl, InPlace.run_handleAll_eq_ok_iff.2 hbefore, ?_⟩
    rw [InPlace.run_handle, hs]
    rfl
  · rw [InPlace.run_handleAll_eq_ok_iff] at h
    exact ⟨by rw [run_fst, h], run_append h b⟩
  · rw [after, after, List.foldl_append]
    exact output_after _ later
  · rw [run_fst, run_fst]
    exact output_feed_append m a b

end

open scoped World in
/-- A run that leaves a chain open and is made whole by a second one, or ends there because an assignment is none. -/
theorem run_incremental_open_chain :
    let m := start Context.builtins []
    let a : List Token := [⟨0, .cond "true"⟩, ⟨9, .text "x"⟩]
    let failing : Token := ⟨10, .set "y"⟩
    let m' : Machine := { m with frames := [⟨true, true, true, 0⟩], output := ["x".toList] }
    ((InPlace.handleAll (a ++ [failing])).run m = .error (.noAssignment "y" (.ofOffset [] 10)) m' ∧
      ∃ before token after, a ++ [failing] = before ++ token :: after ∧ (InPlace.handleAll before).run m = .ok () m' ∧
        (InPlace.handle token).run m' = .error (.noAssignment "y" (.ofOffset [] 10)) m') ∧
    ((InPlace.handleAll a).run m = .ok () m' ∧
      (m.run a).1 = m' ∧ m'.run [⟨10, .finish⟩] = m.run (a ++ [⟨10, .finish⟩])) := by
  intro m a failing m'
  obtain ⟨-, hfail, hparts, -, -⟩ := run_incremental m
  have hholds : m.holds "true" = .ok true := holds_keyword (by decide : ("true".toList, Literal.bool true) ∈ Expr.keywords)
  have hcond : m.step ⟨0, .cond "true"⟩ = .ok { m with frames := [⟨true, true, true, 0⟩] } := step_enter rfl hholds
  have hpieces : Piece.ofText ['x'] = [.literal ['x']] := by
    rw [Piece.ofText, if_neg (by decide), Piece.ofText]
    rfl
  have hwritten (c : Context) : Stencil.interpolate c "x" = .ok "x".toList := by
    show Stencil.interpolate c ['x'] = .ok ['x']
    rw [Stencil.interpolate, hpieces]
    rfl
  have htext : Machine.step { m with frames := [⟨true, true, true, 0⟩] } ⟨9, .text "x"⟩ = .ok m' := by
    simp only [step, interpolate, hwritten]
    rfl
  have hset : m'.step failing = .error (.noAssignment "y" (.ofOffset [] 10)) := by
    have hbody : Assignment.ofBody? "y" = none := rfl
    simp only [step, assign, failing, hbody]
    rfl
  have hfeed : m.feed a = (m', none) := by simp only [a, feed, hcond, htext]
  have hhandle : (InPlace.handleAll a).run m = .ok () m' := InPlace.run_handleAll_eq_ok_iff.2 hfeed
  have herror : (InPlace.handleAll (a ++ [failing])).run m = .error (.noAssignment "y" (.ofOffset [] 10)) m' :=
    InPlace.run_handleAll_eq_error_iff.2 (feed_eq_error_iff.2 ⟨a, failing, [], rfl, hfeed, hset⟩)
  exact ⟨⟨herror, hfail _ _ _ herror⟩, hhandle, hparts a _ _ hhandle⟩

end Machine

end Stencil
