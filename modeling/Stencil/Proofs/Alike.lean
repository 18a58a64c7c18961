import Stencil.Proofs.Except
import Stencil.Render.Machine

/-!
# Machines that look alike

Two machines look alike if they differ in nothing but their notices and in contexts that are related in some way (`Alike`). If
no token can tell related contexts apart (`Token.Respects`), machines that look alike handle the tokens alike: they write the
same output, fail in the same way at the same place, and look alike afterwards (`feed_alike`, `run_alike`).
-/

namespace Stencil

variable {R : Context → Context → Prop}

namespace Token

/-- What a form reads is the same in two contexts: the interpolation of its text or the value of its expression. -/
def Form.ReadsSame [World] (form : Form) (c c' : Context) : Prop :=
  match form with
  | .text t => interpolate c' t = interpolate c t
  | .set body => ∀ a, Assignment.ofBody? body = some a → evaluate c' a.expression = evaluate c a.expression
  | .cond condition | .elseCond condition => evaluate c' condition = evaluate c condition
  | .otherwise | .finish => True

/-- A token reads the same in related contexts, and they stay related when it assigns a value in both. -/
structure Respects [World] (R : Context → Context → Prop) (token : Token) : Prop where
  /-- What it reads is the same. -/
  reads : ∀ {c c' : Context}, R c c' → token.form.ReadsSame c c'
  /-- What it assigns to keeps the contexts related. -/
  assigns : ∀ {body : Text} {a : Assignment}, token.form = .set body → Assignment.ofBody? body = some a →
    ∀ {c c' : Context} (value : Value), R c c' → R (c.assign a.name value) (c'.assign a.name value)

end Token

namespace Machine

/-- Two machines differ in nothing but their notices and in related contexts. -/
structure Alike (R : Context → Context → Prop) (m m' : Machine) : Prop where
  /-- They have the same template. -/
  template : m'.template = m.template
  /-- They have the same open chains. -/
  frames : m'.frames = m.frames
  /-- They have the same output. -/
  output : m'.output = m.output
  /-- Their contexts are related. -/
  context : R m.context m'.context

/-- Two results of a step are alike: both are machines that look alike, or both are one failure. -/
def AlikeAfter (R : Context → Context → Prop) : Except Failure Machine → Except Failure Machine → Prop
  | .ok n, .ok n' => n.Alike R n'
  | .error e, .error e' => e' = e
  | .ok _, .error _ | .error _, .ok _ => False

/-- Results are alike that go on from one part in ways that are alike. -/
theorem AlikeAfter.bind {α : Type} (result : Except Failure α) {next next' : α → Except Failure Machine}
    (h : ∀ a, AlikeAfter R (next a) (next' a)) : AlikeAfter R (result >>= next) (result >>= next') := by
  cases result with
  | error e => exact rfl
  | ok a => exact h a

variable {m m' : Machine}

theorem Alike.active (h : m.Alike R m') : m'.active = m.active := by
  unfold Machine.active
  rw [h.frames]

theorem Alike.innermost (h : m.Alike R m') (directive : Continuation) (o : Nat) :
    m'.innermost directive o = m.innermost directive o := by
  unfold Machine.innermost
  rw [h.frames, h.template]

/-- Machines that look alike give the same output, or have the same chain left open. -/
theorem Alike.finish (h : m.Alike R m') : m'.finish = m.finish := by
  unfold Machine.finish
  rw [h.frames, h.output, h.template]

section

variable [World]

theorem holds_congr {condition : Text} (h : evaluate m'.context condition = evaluate m.context condition) :
    m'.holds condition = m.holds condition := by
  unfold holds eval
  rw [h]

/-- Machines that look alike make an assignment alike. -/
theorem assign_alike (h : m.Alike R m') {o : Nat} {body : Text} (ht : Token.Respects R ⟨o, .set body⟩) :
    AlikeAfter R (m.assign body o) (m'.assign body o) := by
  unfold assign
  cases hb : Assignment.ofBody? body with
  | none =>
    simp only [h.template]
    rfl
  | some a =>
    obtain ⟨name, expression⟩ := a
    simp only
    by_cases hn : name = Context.reservedName
    · rw [if_pos hn, if_pos hn]
      exact ⟨h.template, h.frames, h.output, h.context⟩
    · have heval : m'.eval expression = m.eval expression := by
        unfold eval
        rw [ht.reads h.context _ hb]
      rw [if_neg hn, if_neg hn, heval]
      refine .bind _ fun value => .bind _ fun stored => ?_
      exact ⟨h.template, h.frames, h.output, ht.assigns rfl hb stored h.context⟩

/-- Machines that look alike handle a token alike. -/
theorem step_alike (h : m.Alike R m') {token : Token} (ht : token.Respects R) :
    AlikeAfter R (m.step token) (m'.step token) := by
  obtain ⟨o, form⟩ := token
  have hread := ht.reads h.context
  cases form with
  | text t =>
    simp only [step, h.active]
    split
    · have hinterpolate : m'.interpolate t = m.interpolate t := by
        unfold Machine.interpolate
        rw [show Stencil.interpolate m'.context t = Stencil.interpolate m.context t from hread]
      rw [hinterpolate]
      exact .bind _ fun fragment => ⟨h.template, h.frames, congrArg (· ++ [fragment]) h.output, h.context⟩
    · exact h
  | set body =>
    simp only [step, h.active]
    split
    · exact assign_alike h ht
    · exact h
  | cond condition =>
    simp only [step, h.active, holds_congr hread, h.frames]
    split
    · exact .bind _ fun met => ⟨h.template, rfl, h.output, h.context⟩
    · exact ⟨h.template, rfl, h.output, h.context⟩
  | elseCond condition =>
    simp only [step, h.innermost, holds_congr hread]
    refine .bind _ fun ⟨frame, below⟩ => ?_
    simp only
    split
    · exact ⟨h.template, rfl, h.output, h.context⟩
    · exact .bind _ fun met => ⟨h.template, rfl, h.output, h.context⟩
  | otherwise =>
    simp only [step, h.innermost]
    exact .bind _ fun ⟨frame, below⟩ => ⟨h.template, rfl, h.output, h.context⟩
  | finish =>
    simp only [step, h.innermost]
    exact .bind _ fun ⟨frame, below⟩ => ⟨h.template, rfl, h.output, h.context⟩

/-- Machines that look alike handle tokens alike, up to the same failure if there is one. -/
theorem feed_alike {tokens : List Token} (ht : ∀ token ∈ tokens, token.Respects R) (h : m.Alike R m') :
    (m.feed tokens).1.Alike R (m'.feed tokens).1 ∧ (m'.feed tokens).2 = (m.feed tokens).2 := by
  induction tokens generalizing m m' with
  | nil => exact ⟨h, rfl⟩
  | cons token tokens ih =>
    have hstep := step_alike h (ht token List.mem_cons_self)
    simp only [feed]
    cases hs : m.step token with
    | error e =>
      cases hs' : m'.step token with
      | error e' =>
        rw [hs, hs'] at hstep
        exact ⟨h, congrArg some hstep⟩
      | ok n' =>
        rw [hs, hs'] at hstep
        exact absurd hstep id
    | ok n =>
      cases hs' : m'.step token with
      | error e' =>
        rw [hs, hs'] at hstep
        exact absurd hstep id
      | ok n' =>
        rw [hs, hs'] at hstep
        exact ih (fun t hm => ht t (List.mem_cons_of_mem _ hm)) hstep

/-- Runs of machines that look alike give the same output or failure and leave machines that look alike. -/
theorem run_alike {tokens : List Token} (ht : ∀ token ∈ tokens, token.Respects R) (h : m.Alike R m') :
    (m.run tokens).1.Alike R (m'.run tokens).1 ∧ (m'.run tokens).2 = (m.run tokens).2 := by
  obtain ⟨hafter, hfailure⟩ := feed_alike ht h
  unfold run
  cases hf : m.feed tokens with
  | mk n failure =>
    cases hf' : m'.feed tokens with
    | mk n' failure' =>
      rw [hf, hf'] at hafter hfailure
      obtain rfl : failure' = failure := hfailure
      cases failure' with
      | some e => exact ⟨hafter, rfl⟩
      | none => exact ⟨hafter, hafter.finish⟩

end

end Machine

end Stencil
