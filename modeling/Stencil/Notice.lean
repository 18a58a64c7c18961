import Stencil.Text.Quoted

/-!
# Notices

What rendering reports beside its result: writes to a reserved name that were dropped, how many tokens were rendered, and
what became of another renderer that was asked first.
-/

namespace Stencil

/-- How much a notice matters. -/
inductive Notice.Level
  | debug | warning
  deriving DecidableEq

/-- A notice of rendering. -/
inductive Notice
  /-- The caller gave a value for a reserved name. -/
  | reservedValue (name : Text)
  /-- The template assigns to a reserved name. -/
  | reservedAssignment (name : Text)
  /-- Rendering starts on so many tokens. -/
  | rendering (tokens : Nat)
  /-- The other renderer is not there. -/
  | unavailable (reason : Text)
  /-- The other renderer failed. -/
  | failed (reason : Text)
  /-- The other renderer gave something that is no text. -/
  | unusable (kind : Text)
  deriving DecidableEq

namespace Notice

/-- How much a notice matters. -/
def level : Notice → Level
  | failed _ | unusable _ => .warning
  | _ => .debug

/-- A notice in words. -/
def message : Notice → Text
  | reservedValue name => "Ignoring context value for reserved name " ++ Text.quoted name
  | reservedAssignment name => "Ignoring #set of reserved name " ++ Text.quoted name
  | rendering tokens => "Rendering template with " ++ Text.numeral tokens ++ " tokens"
  | unavailable reason => "Alternate renderer unavailable, using built-in renderer: " ++ reason
  | failed reason => "Alternate renderer failed, using built-in renderer: " ++ reason
  | unusable kind => "Alternate renderer returned " ++ kind ++ ", using built-in renderer"

end Notice

end Stencil
