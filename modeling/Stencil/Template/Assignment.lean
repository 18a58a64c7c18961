import Stencil.Text.Blank
import Stencil.Text.Identifier
import Stencil.Evaluation.Fault

/-!
# Assignments

The body of an assignment: a dollar sign and a name, an equals sign and an expression, with blanks around the first three.
Variables hold no binary64 number: what is assigned is cut to its integer part.
-/

namespace Stencil

/-- An assignment as it is written. -/
structure Assignment where
  /-- The name that is assigned to. -/
  name : Text
  /-- The expression, up to the end of the body. -/
  expression : Text
  deriving DecidableEq

/-- The assignment that a body spells. -/
def Assignment.ofBody? (body : Text) : Option Assignment :=
  match Text.trimLeft body with
  | '$' :: rest =>
    match Text.takeName? rest with
    | none => none
    | some (name, after) =>
      match Text.trimLeft after with
      | '=' :: value =>
        match Text.trimLeft value with
        | [] => none
        | expression => some ⟨name, expression⟩
      | _ => none
  | _ => none

/-- A value as it is stored: a finite binary64 number is cut to its integer part, and one that is not finite is refused. -/
def Value.stored : Value → Except Fault Value
  | number (.float x) =>
    match x.toUnits? with
    | some u => .ok (int (Binary64.truncateUnits u))
    | none => .error (.notFinite x)
  | v => .ok v

end Stencil
