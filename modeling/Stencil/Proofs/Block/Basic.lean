import Stencil.Context
import Stencil.Evaluation.Basic
import Stencil.Render.Failure
import Stencil.Template.Assignment
import Stencil.Template.Reference

/-!
# Blocks

A template as a tree: spans of text, assignments and chains of branches, which hold blocks again. `Block.tokens` writes a tree
down as the flat list of its tokens. `Block.exec` says what a tree means: of every chain that is reached, the branches are
tried in order, the first one whose condition holds is executed, and no other branch and no later condition is looked at.
-/

namespace Stencil

mutual

/-- A block: what stands between two directives of a chain, or a whole template. -/
inductive Block
  | nil
  /-- A span of text, and what comes after it. -/
  | text (offset : Nat) (t : Text) (after : Block)
  /-- An assignment, and what comes after it. -/
  | set (offset : Nat) (body : Text) (after : Block)
  /-- A chain of branches with the first condition and its block, and what comes after the chain. -/
  | chain (offset : Nat) (condition : Text) (body : Block) (others : Branches) (after : Block)

/-- The branches of a chain after the first one, in any number and any order. -/
inductive Branches
  /-- The end of the chain. -/
  | finish (offset : Nat)
  /-- A branch with a condition. -/
  | elseCond (offset : Nat) (condition : Text) (body : Block) (others : Branches)
  /-- A branch without a condition. -/
  | otherwise (offset : Nat) (body : Block) (others : Branches)

end

mutual

/-- The tokens of a block. -/
def Block.tokens : Block → List Token
  | .nil => []
  | .text offset t after => ⟨offset, .text t⟩ :: after.tokens
  | .set offset body after => ⟨offset, .set body⟩ :: after.tokens
  | .chain offset condition body others after =>
    ⟨offset, .cond condition⟩ :: (body.tokens ++ (others.tokens ++ after.tokens))

/-- The tokens of the further branches of a chain, with the one that ends it. -/
def Branches.tokens : Branches → List Token
  | .finish offset => [⟨offset, .finish⟩]
  | .elseCond offset condition body others => ⟨offset, .elseCond condition⟩ :: (body.tokens ++ others.tokens)
  | .otherwise offset body others => ⟨offset, .otherwise⟩ :: (body.tokens ++ others.tokens)

end

/-! ## What a block means -/

/-- What executing a block reads and changes. -/
structure Page where
  /-- The text that offsets are placed in for messages. -/
  template : Text
  /-- The variables. -/
  context : Context
  /-- The output so far. -/
  output : Text
  /-- The notices so far, in order. -/
  log : List Notice

/-- Where an execution ended. -/
structure Ending where
  /-- The page at the end, or at the failure. -/
  page : Page
  /-- The failure that ended it, if it did not come to the end. -/
  failure : Option Failure

namespace Page

/-- Whether a condition holds. -/
def holds [World] (p : Page) (condition : Text) : Except Failure Bool :=
  match evaluate p.context condition with
  | .ok v => .ok v.truthy
  | .error fault => .error (.evaluation fault (some condition))

/-- The page with a span of text written. -/
def write [World] (p : Page) (t : Text) : Except Failure Page :=
  match interpolate p.context t with
  | .ok written => .ok { p with output := p.output ++ written }
  | .error e => .error (.ofObstacle e)

/-- The page with an assignment made. One to the reserved name is only noted. -/
def assign [World] (p : Page) (offset : Nat) (body : Text) : Except Failure Page :=
  match Assignment.ofBody? body with
  | none => .error (.noAssignment body (.ofOffset p.template offset))
  | some ⟨name, expression⟩ =>
    if name = Context.reservedName then .ok { p with log := p.log ++ [.reservedAssignment name] }
    else
      match evaluate p.context expression >>= Value.stored with
      | .ok stored => .ok { p with context := p.context.assign name stored }
      | .error fault => .error (.evaluation fault (some expression))

/-- Where an action on a page ends: one that fails leaves the page as it is. -/
def attempt (p : Page) : Except Failure Page → Ending
  | .ok after => ⟨after, none⟩
  | .error e => ⟨p, some e⟩

end Page

/-- One execution and, unless it fails, the next. -/
def Ending.andThen (ending : Ending) (next : Page → Ending) : Ending :=
  match ending.failure with
  | none => next ending.page
  | some _ => ending

/-- The whole output or the failure. -/
def Ending.result (ending : Ending) : Except Failure Text :=
  match ending.failure with
  | none => .ok ending.page.output
  | some e => .error e

mutual

/-- Where the execution of a block ends. -/
def Block.exec [World] : Block → Page → Ending
  | .nil, p => ⟨p, none⟩
  | .text _ t after, p => (p.attempt (p.write t)).andThen after.exec
  | .set offset body after, p => (p.attempt (p.assign offset body)).andThen after.exec
  | .chain _ condition body others after, p =>
    match p.holds condition with
    | .error e => ⟨p, some e⟩
    | .ok true => (body.exec p).andThen after.exec
    | .ok false => (others.exec p).andThen after.exec

/-- Where the execution of a chain ends, when none of its branches so far has been taken. -/
def Branches.exec [World] : Branches → Page → Ending
  | .finish _, p => ⟨p, none⟩
  | .elseCond _ condition body others, p =>
    match p.holds condition with
    | .error e => ⟨p, some e⟩
    | .ok true => body.exec p
    | .ok false => others.exec p
  | .otherwise _ body _, p => body.exec p

end

end Stencil
