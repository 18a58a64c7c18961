import Stencil.Value.Basic

/-!
# Options of rendering

Whether another renderer is asked first. The option may be given under either of two names and in any form that clearly
means yes or no: a truth value, a number that is zero or one, or one of a few words in any case.
-/

namespace Stencil

/-- Options of rendering. -/
structure Options where
  /-- Whether another renderer is asked first. -/
  preferOther : Bool
  deriving DecidableEq

/-- Why a value of an option means neither yes nor no. -/
inductive Options.Invalid
  /-- It is a word or a whole number, but none of those that are understood. -/
  | notUnderstood
  /-- It is of no kind that could be understood. -/
  | wrongKind
  deriving DecidableEq

namespace Options

/-- The words for no, in lower case. -/
def noWords : List Text := ["0".toList, "off".toList, "f".toList, "false".toList, "n".toList, "no".toList]

/-- The words for yes, in lower case. -/
def yesWords : List Text := ["1".toList, "on".toList, "t".toList, "true".toList, "y".toList, "yes".toList]

/-- The limit on the size of whole numbers that are looked at. -/
def wholeLimit : Int := 9223372036854775808

/-- The meaning of a whole number. One that is out of range is not looked at. -/
def ofWhole (inRange : Bool) (n : Int) : Except Invalid Bool :=
  if !inRange then .error .wrongKind
  else if n = 0 then .ok false
  else if n = 1 then .ok true
  else .error .notUnderstood

/-- The meaning of an integer. The range holds the negative of the limit, but not the limit. -/
def ofInteger (n : Int) : Except Invalid Bool := ofWhole (-wholeLimit ≤ n && n < wholeLimit) n

/-- The meaning of a float, which must be a whole number. The range holds neither the limit nor its negative. -/
def ofFloat (x : Binary64) : Except Invalid Bool :=
  match x.toUnits? with
  | none => .error .wrongKind
  | some u =>
    let n := Binary64.truncateUnits u
    ofWhole (x.isInteger && -wholeLimit < n && n < wholeLimit) n

/-- The meaning of a value as yes or no. -/
def meaning : Value → Except Invalid Bool
  | .bool b => .ok b
  | .number (.int n) => ofInteger n
  | .number (.float x) => ofFloat x
  | .text t =>
    let word := t.map Char.toLower
    if noWords.contains word then .ok false
    else if yesWords.contains word then .ok true
    else .error .notUnderstood
  | _ => .error .wrongKind

/-- The names of the option; the first one given counts. -/
def preferenceNames : List Text := ["preferVelocity".toList, "prefer_velocity".toList]

/-- The options of a mapping. Other names are ignored, and the preference is not set by default. -/
def ofEntries (entries : Entries Value) : Except Invalid Options :=
  match preferenceNames.findSome? fun name => Entries.get? name entries with
  | none => .ok ⟨false⟩
  | some v => Options.mk <$> meaning v

end Options

end Stencil
