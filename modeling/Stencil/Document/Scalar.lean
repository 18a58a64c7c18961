import Stencil.Document.Timestamp
import Stencil.Value.Basic

/-!
# Plain scalars

What an unquoted word of a document stands for: null, a truth value, an integer in one of several bases, a binary64 number,
a moment, or else the word itself. Underscores may stand between the digits of a number. Colons separate the digits of a
number in base 60, of which the last may have a fraction.
-/

namespace Stencil.Scalar

/-- The words for null. -/
def nullWords : List Text := ["".toList, "~".toList, "null".toList, "Null".toList, "NULL".toList]

/-- The words for true. -/
def trueWords : List Text :=
  ["yes".toList, "Yes".toList, "YES".toList, "true".toList, "True".toList, "TRUE".toList, "on".toList, "On".toList,
    "ON".toList]

/-- The words for false. -/
def falseWords : List Text :=
  ["no".toList, "No".toList, "NO".toList, "false".toList, "False".toList, "FALSE".toList, "off".toList, "Off".toList,
    "OFF".toList]

/-- The words for infinity after the sign. -/
def infinityWords : List Text := [".inf".toList, ".Inf".toList, ".INF".toList]

/-- The words for the number that is none. -/
def nanWords : List Text := [".nan".toList, ".NaN".toList, ".NAN".toList]

/-- Whether a character is a digit or an underscore. -/
def isLoose (c : Char) : Bool := c.isDigit || c = '_'

/-- Whether a text starts with a digit and holds only digits and underscores. -/
def isDigits : Text → Bool
  | [] => false
  | c :: rest => c.isDigit && rest.all isLoose

/-- A text without its underscores. -/
def plainDigits (t : Text) : Text := t.filter (· ≠ '_')

/-- Whether a character is a hexadecimal digit. -/
def isHex (c : Char) : Bool := c.isDigit || ('a' ≤ c && c ≤ 'f') || ('A' ≤ c && c ≤ 'F')

/-- The number that digits of a base spell. -/
def baseValue (base : Nat) (t : Text) : Nat :=
  t.foldl (fun n c => base * n + (if c.isDigit then c.toNat - 48 else c.toLower.toNat - 87)) 0

/-- A base and the digits of a text that holds only digits of the base and underscores. -/
def inBase? (base : Nat) (isDigit : Char → Bool) (t : Text) : Option (Nat × Text) :=
  if t.all fun c => isDigit c || c = '_' then some (base, plainDigits t) else none

/-- The base and the digits of an integer in base 2, 16 or 8, which its start tells. There may be no digits. -/
def marked? : Text → Option (Nat × Text)
  | '0' :: 'b' :: c :: rest => inBase? 2 (fun d => d = '0' || d = '1') (c :: rest)
  | '0' :: 'x' :: c :: rest => inBase? 16 isHex (c :: rest)
  | '0' :: c :: rest => inBase? 8 (fun d => '0' ≤ d && d ≤ '7') ('0' :: c :: rest)
  | _ => none

/-- Whether a text is a digit in base 60 after the first one. -/
def isLowDigit (t : Text) : Bool :=
  t.all Char.isDigit && (t.length = 1 || (t.length = 2 && baseValue 10 t < 60))

/-- The digits of a number in base 60, each in base 10 without underscores. There are two or more. -/
def sexagesimal? (t : Text) : Option (Text × List Text) :=
  match t.splitOn ':' with
  | head :: next :: rest =>
    if isDigits head && (next :: rest).all isLowDigit then some (plainDigits head, next :: rest) else none
  | _ => none

/-- The integer of a sign and digits in base 60. -/
def sexagesimalInteger (negative : Bool) (head : Text) (low : List Text) : Except DocumentError Int := do
  let first ← Except.mapError .tooManyDigits (readInteger false head)
  return Binary64.signed negative (low.foldl (fun n d => 60 * n + baseValue 10 d) first.toNat)

/-- The magnitude of digits in base 60 with a fraction, summed from the last digit to the first. A power of 60 beyond every
binary64 number has no rule. -/
def sexagesimalSum (digits : List Binary64) : Except DocumentError Binary64 :=
  let powers := (List.range digits.length).map fun k => Binary64.ofInt (Nat.pow 60 k)
  if powers.all Binary64.isFinite then
    .ok ((digits.reverse.zip powers).foldl (fun sum (d, power) => sum.add (d.mul power)) .zero)
  else .error .broken

/-- The magnitude of a word in base 60 with a fraction. -/
def pointedSexagesimal? (t : Text) : Option (Except DocumentError Binary64) :=
  match Text.splitAtFirst? (· = '.') t with
  | none => none
  | some (whole, fraction) =>
    match sexagesimal? whole with
    | none => none
    | some (head, low) =>
      if fraction.all isLoose then
        let high := (head :: low.dropLast).map fun d => Binary64.ofPointed false d []
        some (sexagesimalSum (high ++ [.ofPointed false (low.getLast?.getD []) (plainDigits fraction)]))
      else none

/-- The magnitude of a binary64 number with a point and perhaps a power of ten, whose sign must be written. -/
def isPointed (signed : Bool) (t : Text) : Bool :=
  let (mantissa, power) := (Text.splitAtFirst? (fun c => c = 'e' || c = 'E') t).getD (t, "+0".toList)
  let powerOk :=
    match power with
    | c :: digits => (c = '+' || c = '-') && !digits.isEmpty && digits.all Char.isDigit
    | [] => false
  let mantissaOk :=
    match Text.splitAtFirst? (· = '.') mantissa with
    | some ([], fraction) => !signed && isDigits fraction
    | some (whole, fraction) => isDigits whole && fraction.all isLoose
    | none => false
  powerOk && mantissaOk

/-- The integer that a sign and a magnitude spell. -/
def integer? (negative : Bool) (t : Text) : Except DocumentError (Option Int) :=
  match marked? t with
  | some (base, []) => .error (.noDigits base)
  | some (base, digits) => .ok (some (Binary64.signed negative (baseValue base digits)))
  | none =>
    if t = ['0'] then .ok (some 0)
    else if t.head? = some '0' then .ok none
    else if isDigits t then some <$> Except.mapError .tooManyDigits (readInteger negative (plainDigits t))
    else
      match sexagesimal? t with
      | some (head, low) => some <$> sexagesimalInteger negative head low
      | none => .ok none

/-- The binary64 number that a sign and a magnitude spell. -/
def float? (signed negative : Bool) (t : Text) : Except DocumentError (Option Binary64) :=
  match pointedSexagesimal? t with
  | some sum => do
    let sum ← sum
    return some (if negative then sum.neg else sum)
  | none =>
    if isPointed signed t then .ok (Binary64.readMagnitude? negative (plainDigits t))
    else if infinityWords.contains t then .ok (some (.infinite negative))
    else if !signed && nanWords.contains t then .ok (some .nan)
    else .ok none

/-- The number that a word spells. -/
def number? (t : Text) : Except DocumentError (Option Number) := do
  let (signed, negative, magnitude) : Bool × Bool × Text :=
    match t with
    | '-' :: rest => (true, true, rest)
    | '+' :: rest => (true, false, rest)
    | _ => (false, false, t)
  match ← integer? negative magnitude with
  | some n => return some (.int n)
  | none => return (← float? signed negative magnitude).map .float

/-- The value of an unquoted word. -/
def value (t : Text) : Except DocumentError Value := do
  if nullWords.contains t then return .null
  else if trueWords.contains t then return .bool true
  else if falseWords.contains t then return .bool false
  else
    match ← number? t with
    | some n => return .number n
    | none =>
      match Timestamp.read? t with
      | some m => Except.mapError .noMoment (Value.moment <$> m.checked)
      | none => return .text t

end Stencil.Scalar
