import Stencil.Proofs.Alike
import Stencil.Proofs.Assignment
import Stencil.Proofs.Run
import Stencil.Render.Basic

/-!
# The reserved name and what assignments leave alone

Nothing but the builtin library is ever under the reserved name: not when the context is made, and not after any assignment. An
assignment to the name is dropped before its expression is looked at, so it makes no difference in a run (`run_insert_reserved`),
and neither does a value of the caller's under the name (`render_result_reserved`). What is under any other name stays there
until an assignment to that name is made (`get?_after_of_notMem`).
-/

namespace Stencil

/-- A value of the caller's under the reserved name makes no difference to the context. -/
theorem Context.ofCaller_reserved (before after : Entries Value) (value : Value) :
    ofCaller (before ++ (reservedName, value) :: after) = ofCaller (before ++ after) := by
  simp only [ofCaller, List.foldl_append, List.foldl_cons, assign, if_pos]

/-- Rendering gives the same with a value of the caller's under the reserved name as without it. -/
theorem render_result_reserved [World] (template : Text) (before after : Entries Value) (value : Value) :
    (render template (before ++ (Context.reservedName, value) :: after)).result =
      (render template (before ++ after)).result := by
  unfold render
  rw [Context.ofCaller_reserved]
  cases Token.tokenize template <;> rfl

/-- An assignment to the reserved name is read as one if there is anything after the equals sign. -/
theorem Assignment.ofBody?_reserved {expression : Text} (h : ∃ c ∈ expression, Text.isBlank c = false) :
    ofBody? ("$Integer = ".toList ++ expression) = some ⟨Context.reservedName, Text.trimLeft expression⟩ := by
  obtain ⟨blanks, hblanks, heq, hu⟩ := Text.trimLeft_eq_iff.1 (rfl : Text.trimLeft expression = _)
  refine ofBody?_eq_some_iff.2 ⟨rfl, fun hnil => ?_, hu, [], [' '], ' ' :: blanks, nofun, ?_, ?_, ?_⟩
  · -- A text of nothing but blanks has no character that is not blank.
    obtain ⟨c, hc, hcb⟩ := h
    simp only at hnil
    rw [heq, hnil, List.append_nil] at hc
    rw [hblanks c hc] at hcb
    cases hcb
  · intro c hc
    rw [List.mem_singleton.1 hc]
    rfl
  · intro c hc
    rcases List.mem_cons.1 hc with rfl | hc
    · rfl
    · exact hblanks c hc
  · exact congrArg ("$Integer = ".toList ++ ·) heq

namespace Machine

variable {m m' : Machine}

/-! ## What a run leaves under a name -/

/-- The name that a token assigns to, if it is an assignment where the machine is active. -/
def target? (m : Machine) (token : Token) : Option Text :=
  match token.form with
  | .set body => if m.active then (Assignment.ofBody? body).map (·.name) else none
  | .text _ | .cond _ | .elseCond _ | .otherwise | .finish => none

section

variable [World]

/-- The names of the assignments that a run on tokens makes. -/
def runTargets (m : Machine) : List Token → List Text
  | [] => []
  | token :: rest =>
    match m.step token with
    | .error _ => []
    | .ok next => (m.target? token).toList ++ next.runTargets rest

/-- The names of the assignments that an event makes. -/
def eventTargets (m : Machine) : Event → List Text
  | .run tokens => m.runTargets tokens
  | .assign name _ => [name]

/-- The names of the assignments that a session makes. -/
def targets (m : Machine) : List Event → List Text
  | [] => []
  | event :: rest => m.eventTargets event ++ (m.afterEvent event).targets rest

/-- A step leaves the context as it is or stores a value under its target. -/
theorem context_step {token : Token} (hs : m.Steps token m') :
    m'.context = m.context ∨ ∃ name ∈ m.target? token, ∃ value, m'.context = m.context.assign name value := by
  cases hs with
  | assign ha hassign =>
    obtain ⟨target, expression, hb, ⟨-, rfl⟩ | ⟨-, value, stored, -, -, rfl⟩⟩ := assign_cases hassign
    · exact .inl rfl
    · refine .inr ⟨target, ?_, stored, rfl⟩
      simp only [target?, ha, if_pos, hb, Option.map_some, Option.mem_some]
  | _ => exact .inl rfl

/-- A step leaves what is under every name but its target. -/
theorem get?_step {token : Token} (hs : m.Steps token m') {name : Text} (hn : name ∉ m.target? token) :
    Entries.get? name m'.context = Entries.get? name m.context := by
  rcases context_step hs with heq | ⟨target, htarget, value, heq⟩
  · rw [heq]
  · rw [heq]
    exact Context.get?_assign_of_ne (fun h : name = target => hn (h ▸ htarget)) value m.context

/-- A run on tokens leaves what is under every name that it makes no assignment to. -/
theorem get?_feed_of_notMem {tokens : List Token} {name : Text} (hn : name ∉ m.runTargets tokens) :
    Entries.get? name (m.feed tokens).1.context = Entries.get? name m.context := by
  induction tokens generalizing m with
  | nil => rfl
  | cons token tokens ih =>
    simp only [feed]
    simp only [runTargets] at hn
    cases hs : m.step token with
    | error e => rfl
    | ok next =>
      simp only [hs, List.mem_append, not_or, Option.mem_toList] at hn
      exact (ih hn.2).trans (get?_step (steps_of_step hs) hn.1)

/-- An event leaves what is under every name that it makes no assignment to. -/
theorem get?_afterEvent_of_notMem {event : Event} {name : Text} (hn : name ∉ m.eventTargets event) :
    Entries.get? name (m.afterEvent event).context = Entries.get? name m.context := by
  cases event with
  | run tokens =>
    rw [afterEvent, run_fst]
    exact get?_feed_of_notMem hn
  | assign target value => exact Context.get?_assign_of_ne (fun heq => hn (List.mem_singleton.2 heq)) value m.context

/-- A session leaves what is under every name that it makes no assignment to. -/
theorem get?_after_of_notMem {events : List Event} {name : Text} (hn : name ∉ m.targets events) :
    Entries.get? name (m.after events).context = Entries.get? name m.context := by
  induction events generalizing m with
  | nil => rfl
  | cons event events ih =>
    rw [targets, List.mem_append, not_or] at hn
    exact (ih hn.2).trans (get?_afterEvent_of_notMem hn.1)

/-- A session leaves what is under the reserved name, whatever it assigns to. -/
theorem get?_reservedName_after (m : Machine) (events : List Event) :
    Entries.get? Context.reservedName (m.after events).context = Entries.get? Context.reservedName m.context := by
  refine after_keeps (fun n => Entries.get? Context.reservedName n.context = Entries.get? Context.reservedName m.context)
    (fun {n n' token} hs hn => ?_) (fun name value hn => (Context.get?_reservedName_assign name value _).trans hn) events rfl
  rcases context_step hs with heq | ⟨target, -, value, heq⟩
  · rw [heq, hn]
  · rw [heq, Context.get?_reservedName_assign, hn]

end

/-! ## Assignments to the reserved name -/

/-- Machines that differ in nothing but their notices look alike, with equal contexts. -/
theorem alike_log (m : Machine) (log : List Notice) : m.Alike Eq { m with log := log } := ⟨rfl, rfl, rfl, rfl⟩

/-- A machine that looks like another one, with an equal context, differs from it in nothing but its notices. -/
theorem Alike.eq_log (h : m.Alike Eq m') : m' = { m with log := m'.log } := by
  obtain ⟨template, context, frames, output, log⟩ := m'
  obtain ⟨rfl, rfl, rfl, rfl⟩ := h
  rfl

section

variable [World]

/-- No token can tell equal contexts apart. -/
theorem respects_eq (token : Token) : token.Respects Eq where
  reads := by
    rintro c c' rfl
    obtain ⟨o, form⟩ := token
    cases form with
    | set body => exact fun _ _ => rfl
    | otherwise => trivial
    | finish => trivial
    | _ => rfl
  assigns := by
    rintro body a - - c c' value rfl
    rfl

/-- An assignment to the reserved name is handled without a failure and changes nothing but the notices. -/
theorem step_reserved {body expression : Text}
    (h : Assignment.ofBody? body = some ⟨Context.reservedName, expression⟩) (m : Machine) (o : Nat) :
    ∃ log, m.step ⟨o, .set body⟩ = .ok { m with log := log } := by
  simp only [step, assign, h, if_pos]
  split
  · exact ⟨_, rfl⟩
  · exact ⟨m.log, rfl⟩

/-- A token that changes nothing but the notices makes no difference to a run, wherever it is inserted. -/
theorem run_insert {token : Token} (h : ∀ n : Machine, ∃ log, n.step token = .ok { n with log := log })
    (m : Machine) (before after : List Token) :
    (m.run (before ++ after)).1.Alike Eq (m.run (before ++ token :: after)).1 ∧
      (m.run (before ++ token :: after)).2 = (m.run (before ++ after)).2 := by
  cases hb : m.feed before with
  | mk n failure =>
    cases failure with
    | some e =>
      -- The run fails before it comes to the token.
      unfold run
      rw [feed_append_error hb, feed_append_error hb]
      exact ⟨alike_log n n.log, rfl⟩
    | none =>
      obtain ⟨log, hlog⟩ := h n
      have hwith : m.run (before ++ token :: after) = Machine.run { n with log := log } after := by
        unfold run
        rw [feed_append hb, feed, hlog]
      have hwithout : m.run (before ++ after) = n.run after := by
        unfold run
        rw [feed_append hb]
      rw [hwith, hwithout]
      exact run_alike (fun token _ => respects_eq token) (alike_log n log)

/-- The builtin library is protected and assignments touch nothing but their targets. For every caller and template, and every
session on the machine that starts with them: the library is under its name in every state; what is under a name stays there
while no assignment to the name is made; a value of the caller's under the reserved name makes no difference to rendering; and
an assignment to the reserved name, of any expression at all, makes no difference to a run of any machine, wherever it is
inserted, but for the notices. -/
theorem builtin_protected (caller : Entries Value) (template : Text) :
    (∀ events, Entries.get? Context.reservedName ((start (.ofCaller caller) template).after events).context =
      some (.library .integer)) ∧
    (∀ earlier later name, name ∉ ((start (.ofCaller caller) template).after earlier).targets later →
      Entries.get? name ((start (.ofCaller caller) template).after (earlier ++ later)).context =
        Entries.get? name ((start (.ofCaller caller) template).after earlier).context) ∧
    (∀ before after value, caller = before ++ (Context.reservedName, value) :: after →
      (render template caller).result = (render template (before ++ after)).result) ∧
    (∀ (m : Machine) (before after : List Token) (o : Nat) (expression : Text),
      (∃ c ∈ expression, Text.isBlank c = false) → ∃ log,
        m.run (before ++ ⟨o, .set ("$Integer = ".toList ++ expression)⟩ :: after) =
          ({ (m.run (before ++ after)).1 with log := log }, (m.run (before ++ after)).2)) := by
  refine ⟨fun events => ?_, fun earlier later name hn => ?_, ?_, fun m before after o expression h => ?_⟩
  · exact (get?_reservedName_after _ events).trans (Context.get?_reservedName_ofCaller caller)
  · rw [after, List.foldl_append]
    exact get?_after_of_notMem hn
  · rintro before after value rfl
    exact render_result_reserved template before after value
  · have hb := Assignment.ofBody?_reserved h
    obtain ⟨halike, hresult⟩ := run_insert (fun n => step_reserved hb n o) m before after
    exact ⟨_, Prod.ext halike.eq_log hresult⟩

end

open scoped World in
/-- A caller with a value under the reserved name, a session that assigns to two names and fails, and an assignment of what is
no expression. -/
theorem builtin_protected_session :
    let caller : Entries Value := [("a".toList, .int 1), ("Integer".toList, .int 7)]
    let m := start (.ofCaller caller) "$a".toList
    let later : List Event := [.assign "b".toList (.int 2), .run [⟨0, .set "$Integer = )".toList⟩, ⟨5, .finish⟩]]
    ("a".toList ∉ (m.after []).targets later ∧
      Entries.get? "a".toList (m.after ([] ++ later)).context = Entries.get? "a".toList (m.after []).context) ∧
    (caller = [("a".toList, .int 1)] ++ (Context.reservedName, .int 7) :: [] ∧
      (render "$a".toList caller).result = (render "$a".toList ([("a".toList, .int 1)] ++ [])).result) ∧
    ((∃ c ∈ ")".toList, Text.isBlank c = false) ∧ ∃ log,
      m.run ([⟨0, .text "$a".toList⟩] ++ ⟨2, .set ("$Integer = ".toList ++ ")".toList)⟩ :: []) =
        ({ (m.run ([⟨0, .text "$a".toList⟩] ++ [])).1 with log := log }, (m.run ([⟨0, .text "$a".toList⟩] ++ [])).2)) := by
  intro caller m later
  obtain ⟨-, hkept, hcaller, hinsert⟩ := builtin_protected caller "$a".toList
  have htargets : (m.after []).targets later = ["b".toList, "Integer".toList] := rfl
  have hname : "a".toList ∉ (m.after []).targets later := by
    rw [htargets]
    decide
  have hchar : ∃ c ∈ ")".toList, Text.isBlank c = false := ⟨')', List.mem_cons_self, rfl⟩
  exact ⟨⟨hname, hkept [] later _ hname⟩, ⟨rfl, hcaller _ _ _ rfl⟩, hchar, hinsert m _ _ 2 _ hchar⟩

end Machine

end Stencil
