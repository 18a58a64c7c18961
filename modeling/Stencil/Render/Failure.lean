import Stencil.Evaluation.Fault
import Stencil.Template.Token

/-!
# Failures of rendering

What can go wrong in a template, where, and the words for it. A fault of evaluation names the expression at the end of its
words. What an object of the caller's raises passes as it is, unless an evaluation catches it.
-/

namespace Stencil

/-- A directive that belongs to an open chain of branches. -/
inductive Continuation
  | elseCond | otherwise | finish
  deriving DecidableEq

/-- What went wrong in a template. -/
inductive Failure
  /-- The parenthesis of a directive is never closed. -/
  | unterminated (offset : Nat) (place : Position)
  /-- The body of an assignment is none. -/
  | noAssignment (body : Text) (place : Position)
  /-- A directive stands where no chain of branches is open. -/
  | unmatched (directive : Continuation) (place : Position)
  /-- A chain of branches is still open at the end. -/
  | unclosed (place : Position)
  /-- An expression has no value. -/
  | evaluation (fault : Fault) (expression : Option Text)
  /-- A value is too long to be written into output. -/
  | tooManyDigits (e : TooManyDigits)
  /-- An object fails where it is to be written into output. -/
  | object (e : ObjectError)

/-- The kinds of failures that a template is said to have. -/
inductive Failure.Kind
  | tokenize | directiveSyntax | structural | evaluation
  deriving DecidableEq

/-- The directive as it is written. -/
def Continuation.symbol : Continuation → Text
  | elseCond => "#elseif".toList
  | otherwise => "#else".toList
  | finish => "#end".toList

namespace Failure

/-- The failure of an unterminated directive of a template. -/
def ofUnterminated (template : Text) (e : Unterminated) : Failure :=
  unterminated e.offset (.ofOffset template e.offset)

/-- The failure of an obstacle to writing a value into output. -/
def ofObstacle : Obstacle → Failure
  | .tooManyDigits e => tooManyDigits e
  | .object e => object e

section

variable [World]

/-- The failure of a fault met outside of an evaluation: one that an obstacle is the reason for is told as that. -/
def ofFault (fault : Fault) (expression : Option Text) : Failure :=
  match fault.words with
  | .ok _ => evaluation fault expression
  | .error e => ofObstacle e

/-- The kind of a failure. A value that cannot be written is a failure of no such kind, and neither is an error of an object that
an evaluation lets pass. -/
def kind? : Failure → Option Kind
  | unterminated .. => some .tokenize
  | noAssignment .. => some .directiveSyntax
  | unmatched .. | unclosed .. => some .structural
  | evaluation fault _ => if fault.escape?.isSome then none else some .evaluation
  | tooManyDigits _ | object _ => none

/-- A failure of evaluation is of no other kind. -/
theorem eq_evaluation_of_kind? {fault : Fault} {expression : Option Text} {kind : Kind}
    (h : (evaluation fault expression).kind? = some kind) : kind = .evaluation := by
  simp only [kind?] at h
  split at h
  · cases h
  · exact (Option.some.inj h).symm

/-- A failure of evaluation in words, if it has any. -/
def evaluationMessage (fault : Fault) (expression : Option Text) : Option Text :=
  match fault.escape?, expression with
  | some e, _ => some e.message
  | none, none => fault.message
  | none, some expression => fault.message.map fun m => m ++ " in expression: " ++ Text.quoted expression

/-- A failure in words, if it has any. -/
def message : Failure → Option Text
  | unterminated offset place =>
    some ("Unterminated directive starting at index " ++ Text.numeral offset ++ " (" ++ place.describe ++ ")")
  | noAssignment body place => some ("Unable to parse set directive: " ++ Text.quoted body ++ " at " ++ place.describe)
  | unmatched directive place => some (directive.symbol ++ " without matching #if at " ++ place.describe)
  | unclosed place => some ("Unclosed #if block detected (opened at " ++ place.describe ++ ")")
  | evaluation fault expression => evaluationMessage fault expression
  | tooManyDigits e => some e.message
  | object e => some e.message

end

end Failure

end Stencil
