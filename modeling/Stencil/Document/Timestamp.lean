import Stencil.Document.Error

/-!
# Timestamps

Moments as a document spells them: the four digits of the year, the month and the day, and perhaps the time of day, its
fraction and its distance from universal time. A day alone has two digits of the month and of the day.
-/

namespace Stencil.Timestamp

/-- The number of at least `least` and at most `most` digits at the start of a text, and the rest. -/
def takeNumber? (least most : Nat) (t : Text) : Option (Nat × Text) :=
  let digits := (t.take most).takeWhile Char.isDigit
  if least ≤ digits.length then some (Text.numeralValue digits, t.drop digits.length) else none

/-- The rest of a text after a character. -/
def after? (c : Char) : Text → Option Text
  | d :: rest => if d = c then some rest else none
  | [] => none

/-- The time of day after what separates it from the day: the letter T or spaces. -/
def afterSeparator? : Text → Option Text
  | 'T' :: rest => some rest
  | 't' :: rest => some rest
  | ' ' :: rest => some (rest.dropWhile (· = ' '))
  | _ => none

/-- The microseconds of a fraction at the start of a text, of which six digits count, and the rest. -/
def takeFraction : Text → Nat × Text
  | '.' :: rest =>
    let digits := rest.takeWhile Char.isDigit
    (Text.numeralValue ((digits ++ List.replicate 6 '0').take 6), rest.drop digits.length)
  | t => (0, t)

/-- How many minutes a text that ends a timestamp puts its clock ahead of universal time, if it says so. -/
def readAhead? (t : Text) : Option (Option Int) :=
  match t.dropWhile (· = ' ') with
  | [] => if t.isEmpty then some none else none
  | ['Z'] => some (some 0)
  | sign :: rest =>
    if sign = '+' || sign = '-' then do
      let (hours, rest) ← takeNumber? 1 2 rest
      let minutes ←
        match rest with
        | [] => some 0
        | ':' :: rest =>
          match takeNumber? 2 2 rest with
          | some (minutes, []) => some minutes
          | _ => none
        | _ => none
      return some (Binary64.signed (sign = '-') (hours * 60 + minutes))
    else none

/-- The time of day that a text spells. -/
def readClock? (t : Text) : Option Clock := do
  let (hour, t) ← takeNumber? 1 2 t
  let (minute, t) ← takeNumber? 2 2 (← after? ':' t)
  let (second, t) ← takeNumber? 2 2 (← after? ':' t)
  let (microsecond, t) := takeFraction t
  return ⟨hour, minute, second, microsecond, ← readAhead? t⟩

/-- The day at the start of a text, with at least `least` digits of the month and of the day, and the rest. -/
def takeDay? (least : Nat) (t : Text) : Option (Day × Text) := do
  let (year, t) ← takeNumber? 4 4 t
  let (month, t) ← takeNumber? least 2 (← after? '-' t)
  let (day, t) ← takeNumber? least 2 (← after? '-' t)
  return (⟨year, month, day⟩, t)

/-- The numbers of the moment that a text spells. -/
def read? (t : Text) : Option Moment :=
  match takeDay? 2 t with
  | some (day, []) => some ⟨day, none⟩
  | _ => do
    let (day, t) ← takeDay? 1 t
    let clock ← readClock? (← afterSeparator? t)
    return ⟨day, some clock⟩

end Stencil.Timestamp
