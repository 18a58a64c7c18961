import Stencil.Text.Basic

/-!
# Control sequences

The sequences by which a text sets colours and moves the cursor of a terminal: the escape character, an opening square
bracket, any parameters and a letter. They are left out of what is written to anything else than a terminal. What only
starts like such a sequence stays as it is, and what is left is not looked at again.
-/

namespace Stencil.Text

/-- Whether a character may stand among the parameters of a control sequence. -/
def isControlParameter (c : Char) : Bool := c = ';' || c = '?' || c.isDigit

/-- How many characters of a text after an escape character belong to a control sequence, if there is one. -/
def controlTail? : Text → Option Nat
  | '[' :: rest =>
    let parameters := rest.takeWhile isControlParameter
    match rest.drop parameters.length with
    | c :: _ => if c.isAlpha then some (parameters.length + 2) else none
    | [] => none
  | _ => none

/-- A text without its control sequences. -/
def withoutControls : Text → Text
  | [] => []
  | c :: rest =>
    match if c = '\x1b' then controlTail? rest else none with
    | some n => withoutControls (rest.drop n)
    | none => c :: withoutControls rest
termination_by t => t.length
decreasing_by
  all_goals
    simp only [List.length_cons, List.length_drop]
    omega

end Stencil.Text
