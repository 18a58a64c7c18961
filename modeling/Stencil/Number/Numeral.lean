import Stencil.Number.Basic
import Stencil.Text.Blank

/-!
# Numerals

Numbers as texts spell them. A numeral is a run of digits, with a point and more digits if it is not an integer. Between
texts and integers the length is limited to `digitLimit` digits, in both directions; there is no limit with a point.
-/

namespace Stencil

/-- How many digits an integer may have where it is read from a text or written as one. -/
def digitLimit : Nat := 4300

/-- An integer with too many digits to be read or written; when it is read, their count is known. -/
structure TooManyDigits where
  /-- The count of digits in the text that was read. -/
  digits : Option Nat
  deriving DecidableEq

/-- What is said of an integer with too many digits. -/
def TooManyDigits.message (e : TooManyDigits) : Text :=
  let counted : Text :=
    match e.digits with
    | none => []
    | some n => ": value has " ++ Text.numeral n ++ " digits".toList
  "Exceeds the limit (" ++ Text.numeral digitLimit ++ " digits) for integer string conversion" ++ counted ++
    "; use sys.set_int_max_str_digits() to increase the limit"

/-- The integer that a sign and a text of digits spell. Leading zeros count as digits. -/
def readInteger (negative : Bool) (digits : Text) : Except TooManyDigits Int :=
  if digitLimit < digits.length then .error ⟨some digits.length⟩
  else .ok (Binary64.signed negative (Text.numeralValue digits))

/-- The numeral of an integer. -/
def writeInteger (n : Int) : Except TooManyDigits Text :=
  if n.natAbs < Binary64.tenTo digitLimit then .ok (Text.integerNumeral n) else .error ⟨none⟩

/-- An unsigned numeral as it is written. -/
structure Numeral where
  /-- The digits before the point. -/
  whole : Text
  /-- The digits after the point, if there is one. -/
  fraction : Option Text
  deriving DecidableEq

namespace Numeral

/-- The text of a numeral. -/
def text (n : Numeral) : Text :=
  match n.fraction with
  | none => n.whole
  | some digits => n.whole ++ '.' :: digits

/-- The number that a sign and a numeral spell. -/
def toNumber (negative : Bool) (n : Numeral) : Except TooManyDigits Number :=
  match n.fraction with
  | none => do return .int (← readInteger negative n.whole)
  | some digits => .ok (.float (.ofPointed negative n.whole digits))

/-- The longest numeral at the start of a text, and the rest. A point belongs to it only if a digit follows. -/
def take? (t : Text) : Option (Numeral × Text) :=
  let rest := t.dropWhile Text.isDigit
  match t.takeWhile Text.isDigit with
  | [] => none
  | whole =>
    match rest with
    | '.' :: c :: after =>
      if Text.isDigit c then
        some (⟨whole, some (c :: after.takeWhile Text.isDigit)⟩, after.dropWhile Text.isDigit)
      else some (⟨whole, none⟩, rest)
    | _ => some (⟨whole, none⟩, rest)

end Numeral

/-- The number that a text spells, if it is a numeral with an optional minus sign and blanks around it. -/
def Number.ofText? (t : Text) : Except TooManyDigits (Option Number) :=
  let trimmed := Text.trim t
  let (negative, unsigned) :=
    match trimmed with
    | '-' :: rest => (true, rest)
    | _ => (false, trimmed)
  match Numeral.take? unsigned with
  | some (n, []) => some <$> n.toNumber negative
  | _ => .ok none

end Stencil
