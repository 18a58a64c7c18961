import Stencil.Moment
import Stencil.Number.Numeral
import Stencil.Text.Quoted

/-!
# Errors of values documents

Why a values document cannot be read, and the words for it.
-/

namespace Stencil

/-- Why a values document cannot be read. -/
inductive DocumentError
  /-- The text follows no rule of the format. -/
  | broken
  /-- An integer is too long. -/
  | tooManyDigits (e : TooManyDigits)
  /-- An integer has the marker of a base, but no digits. -/
  | noDigits (base : Nat)
  /-- Numbers are written as a moment, but are none. -/
  | noMoment (e : Moment.Invalid)
  /-- A number is written as that of a character, but no character has it. -/
  | noCharacter
  deriving DecidableEq

/-- Why a values document cannot be read, in words. -/
def DocumentError.message : DocumentError → Text
  | broken => "the values file cannot be read".toList
  | tooManyDigits e => e.message
  | noDigits base => "invalid literal for int() with base " ++ Text.numeral base ++ ": " ++ Text.quoted []
  | noMoment e => e.message
  | noCharacter => "chr() arg not in range(0x110000)".toList

end Stencil
