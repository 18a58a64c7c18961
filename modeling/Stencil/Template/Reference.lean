import Stencil.Text.Identifier
import Stencil.Value.Writing

/-!
# References

A span of text as literal pieces and references: a dollar sign and the longest name after it. Interpolation writes the value
of each reference in its place, once; what it writes is not read again.
-/

namespace Stencil

/-- A piece of a span of text. -/
inductive Piece
  /-- Characters that stand for themselves. -/
  | literal (t : Text)
  /-- A reference to a value by name. -/
  | reference (name : Text)
  deriving DecidableEq

namespace Piece

/-- Pieces with one more character that stands for itself in front. -/
def pushChar (c : Char) : List Piece → List Piece
  | literal t :: rest => literal (c :: t) :: rest
  | pieces => literal [c] :: pieces

/-- The pieces of a span of text. -/
def ofText : Text → List Piece
  | [] => []
  | c :: rest =>
    if c = '$' then
      match Text.takeName? rest with
      | some (name, _) => reference name :: ofText (rest.drop name.length)
      | none => pushChar c (ofText rest)
    else pushChar c (ofText rest)
termination_by t => t.length
decreasing_by
  all_goals
    simp only [List.length_cons, List.length_drop]
    omega

/-- What is written for a piece. A name without a value is written as null is. -/
def written [World] (entries : Entries Value) : Piece → Except Obstacle Text
  | literal t => .ok t
  | reference name => ((Entries.get? name entries).getD .null).toText

end Piece

/-- A span of text with the values of its references in their places. -/
def interpolate [World] (entries : Entries Value) (t : Text) : Except Obstacle Text := do
  return (← (Piece.ofText t).mapM (Piece.written entries)).flatten

end Stencil
