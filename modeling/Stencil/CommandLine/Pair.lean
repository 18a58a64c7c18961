import Stencil.Entries
import Stencil.Text.Blank
import Stencil.Text.Quoted

/-!
# Values on the command line

Pairs of a name and a value with an equals sign between them. Blanks around the name are dropped, the value is taken as it
is, and of two values under one name the later one counts.
-/

namespace Stencil

/-- A text that is no pair. -/
structure NoPair where
  /-- The text. -/
  text : Text
  deriving DecidableEq

/-- What is said of a text that is no pair. -/
def NoPair.message (e : NoPair) : Text := "Expected NAME=VALUE, got " ++ Text.quoted e.text

namespace Pair

/-- The name and the value of a pair. The value starts after the first equals sign. -/
def read (t : Text) : Except NoPair (Text × Text) :=
  match Text.splitAtFirst? (· = '=') t with
  | none => .error ⟨t⟩
  | some (name, value) =>
    match Text.trim name with
    | [] => .error ⟨t⟩
    | name => .ok (name, value)

/-- The values of pairs under their names. -/
def readAll (pairs : List Text) : Except NoPair (Entries Text) := do
  return Entries.ofPairs (← pairs.mapM read)

end Pair

end Stencil
