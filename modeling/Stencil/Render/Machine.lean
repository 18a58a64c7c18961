import Stencil.Context
import Stencil.Evaluation.Basic
import Stencil.Render.Failure
import Stencil.Template.Assignment
import Stencil.Template.Reference

/-!
# The machine

Tokens are handled one by one by a machine with a frame for every open chain of branches. A frame knows whether its
surroundings are active, whether its current branch is, and whether a branch of it has been taken; while a frame is open the
frames below it do not change, so the top frame alone decides whether the machine is active. A token that fails leaves the
machine as it was.
-/

namespace Stencil

/-- The record of one open chain of branches. -/
structure Frame where
  /-- Whether everything around the chain is active. -/
  parentActive : Bool
  /-- Whether the current branch is active. -/
  active : Bool
  /-- Whether a branch has been taken. -/
  branchTaken : Bool
  /-- The offset of the directive that opened the chain. -/
  offset : Nat
  deriving DecidableEq

/-- The state of rendering. -/
structure Machine where
  /-- The text that offsets are placed in for messages. -/
  template : Text
  /-- The variables. -/
  context : Context
  /-- The open chains of branches, the innermost first. -/
  frames : List Frame
  /-- The fragments of output so far, in order. -/
  output : List Text
  /-- The notices so far, in order. -/
  log : List Notice

namespace Machine

/-- A machine that has handled nothing. -/
def start (context : Context) (template : Text) : Machine := ⟨template, context, [], [], []⟩

/-- Whether text is written and assignments are made. -/
def active (m : Machine) : Bool :=
  match m.frames with
  | [] => true
  | frame :: _ => frame.parentActive && frame.active

section

variable [World]

/-- The value of an expression in the machine's context. -/
def eval (m : Machine) (expression : Text) : Except Failure Value :=
  Except.mapError (fun fault => .evaluation fault (some expression)) (evaluate m.context expression)

/-- Whether a condition holds in the machine's context. -/
def holds (m : Machine) (condition : Text) : Except Failure Bool := do
  return (← m.eval condition).truthy

/-- A span of text with the machine's values in their places. -/
def interpolate (m : Machine) (t : Text) : Except Failure Text :=
  Except.mapError Failure.ofObstacle (Stencil.interpolate m.context t)

end

/-- The innermost frame and the others, for a directive that belongs to an open chain. -/
def innermost (m : Machine) (directive : Continuation) (offset : Nat) : Except Failure (Frame × List Frame) :=
  match m.frames with
  | [] => .error (.unmatched directive (.ofOffset m.template offset))
  | frame :: below => .ok (frame, below)

section

variable [World]

/-- The machine after an active assignment. One to the reserved name is dropped before its expression is looked at. -/
def assign (m : Machine) (body : Text) (offset : Nat) : Except Failure Machine :=
  match Assignment.ofBody? body with
  | none => .error (.noAssignment body (.ofOffset m.template offset))
  | some ⟨name, expression⟩ =>
    if name = Context.reservedName then .ok { m with log := m.log ++ [.reservedAssignment name] }
    else do
      let value ← m.eval expression
      let stored ← Except.mapError (fun fault => .evaluation fault (some expression)) value.stored
      return { m with context := m.context.assign name stored }

/-- The machine after a token. -/
def step (m : Machine) (token : Token) : Except Failure Machine :=
  match token.form with
  | .text t =>
    if m.active then do
      let fragment ← m.interpolate t
      return { m with output := m.output ++ [fragment] }
    else .ok m
  | .set body => if m.active then m.assign body token.offset else .ok m
  | .cond condition => do
    let met ← if m.active then m.holds condition else .ok false
    return { m with frames := ⟨m.active, met, met, token.offset⟩ :: m.frames }
  | .elseCond condition => do
    let (frame, below) ← m.innermost .elseCond token.offset
    if !frame.parentActive || frame.branchTaken then
      return { m with frames := { frame with active := false } :: below }
    else
      let met ← m.holds condition
      return { m with frames := { frame with active := met, branchTaken := met } :: below }
  | .otherwise => do
    let (frame, below) ← m.innermost .otherwise token.offset
    let taken := frame.parentActive && !frame.branchTaken
    return { m with frames := { frame with active := taken, branchTaken := frame.branchTaken || taken } :: below }
  | .finish => do
    let (_, below) ← m.innermost .finish token.offset
    return { m with frames := below }

/-- The machine after as many of the tokens as it can handle, and the failure of the first that it cannot. -/
def feed (m : Machine) : List Token → Machine × Option Failure
  | [] => (m, none)
  | token :: rest =>
    match m.step token with
    | .error e => (m, some e)
    | .ok next => next.feed rest

end

/-- The whole output, once no chain of branches is open. -/
def finish (m : Machine) : Except Failure Text :=
  match m.frames with
  | [] => .ok m.output.flatten
  | frame :: _ => .error (.unclosed (.ofOffset m.template frame.offset))

/-- The machine after running on tokens, and the whole output so far or the failure. -/
def run [World] (m : Machine) (tokens : List Token) : Machine × Except Failure Text :=
  match m.feed tokens with
  | (after, some e) => (after, .error e)
  | (after, none) => (after, after.finish)

/-- The machine after running on the tokens of a text. Only the failure of an unterminated directive is placed in the text
itself. -/
def runText [World] (m : Machine) (t : Text) : Machine × Except Failure Text :=
  match Token.tokenize t with
  | .error e => (m, .error (.ofUnterminated t e))
  | .ok tokens => m.run tokens

end Machine

end Stencil
