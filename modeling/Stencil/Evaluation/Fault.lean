import Stencil.Expr.ParseError
import Stencil.Value.Writing

/-!
# Faults of evaluation

Why an expression has no value. A fault holds the values it is about; its words show them, and where a value cannot be shown,
the reason for that is all that is said. A call with a wrong count of arguments has no words of its own. An error of an object
of the caller's is a fault as well, but an evaluation lets it pass if it is of no kind that it catches.
-/

namespace Stencil

/-- Why an expression has no value. -/
inductive Fault
  /-- The text is no expression. -/
  | malformed (e : ParseError)
  /-- A bare name is no builtin. -/
  | unknownName (name : Text)
  /-- A library has no such member. -/
  | noMember (library : Library) (key : Text)
  /-- Members of the value cannot be read. -/
  | unreadable (key : Text) (target : Value)
  /-- The operator does not work on the value. -/
  | operand (symbol : Text) (value : Value)
  /-- The value cannot be called. -/
  | notCallable (callee : Value)
  /-- A mathematical function was given a value that is no number. -/
  | notNumber (f : MathFunction) (value : Value)
  /-- A function of many arguments was given none. -/
  | noArguments (f : MathFunction)
  /-- A function was given a count of arguments that it does not take. -/
  | argumentCount (f : Builtin)
  /-- No integer leads the text of the value. -/
  | noLeadingInteger (value : Value)
  /-- The value is no number and spells none. -/
  | notConvertible (value : Value)
  /-- The arithmetic has no result. -/
  | arithmetic (e : Number.Fault)
  /-- An integer is too long to be read or written. -/
  | tooManyDigits (e : TooManyDigits)
  /-- An object fails. -/
  | object (e : ObjectError)
  /-- A number to be assigned is not finite. -/
  | notFinite (x : Binary64)

namespace Fault

section

variable [World]

/-- What is said of a value, which is shown in it. -/
def about (v : Value) (say : Text → Text) : Except Obstacle (Option Text) := (fun shown => some (say shown)) <$> v.shown

/-- The words of a fault, if it has any. They cannot be found where a value cannot be shown. -/
def words : Fault → Except Obstacle (Option Text)
  | malformed (.tooManyDigits e) => .error (.tooManyDigits e)
  | malformed e => .ok (some e.message)
  | unknownName name => .ok (some ("Unknown name '" ++ name ++ "'"))
  | noMember library key => .ok (some (library.name ++ " has no member '" ++ key ++ "'"))
  | unreadable key target => about target fun shown => "Cannot read property '" ++ key ++ "' of " ++ shown
  | operand symbol value => about value fun shown => "Unsupported operand for '" ++ symbol ++ "': " ++ shown
  | notCallable callee => (fun t => some (Text.quoted t ++ " is not a function")) <$> callee.toText
  | notNumber f value => about value fun shown => (Builtin.math f).name ++ " expects numbers, got " ++ shown
  | noArguments f => .ok (some ((Builtin.math f).name ++ " expects at least one argument"))
  | argumentCount _ => .ok none
  | noLeadingInteger value => about value fun shown => "Unable to parse integer from value: " ++ shown
  | notConvertible value => about value fun shown => "Unable to convert value to a number: " ++ shown
  | arithmetic e => .ok (some e.message)
  | tooManyDigits e => .error (.tooManyDigits e)
  | object e => .error (.object e)
  | notFinite x => .ok (some ("Cannot assign non-finite number " ++ x.toText))

/-- A fault in words, if it has any. Where the words cannot be found, the reason for that is given in their place. -/
def message (fault : Fault) : Option Text :=
  match fault.words with
  | .ok said => said
  | .error e => some e.message

/-- The error of an object that an evaluation lets pass, if that is the fault or the reason why its words cannot be found. -/
def escape? (fault : Fault) : Option ObjectError :=
  match fault.words with
  | .error (.object e) => if e.kind = .other then some e else none
  | _ => none

end

/-- A reading of integers as a part of an evaluation. -/
def ofDigits {α : Type} : Except TooManyDigits α → Except Fault α := Except.mapError tooManyDigits

/-- What an object does as a part of an evaluation. -/
def ofObject {α : Type} : Except ObjectError α → Except Fault α := Except.mapError object

/-- The fault that an obstacle is in an evaluation. -/
def obstacle : Obstacle → Fault
  | .tooManyDigits e => tooManyDigits e
  | .object e => object e

/-- A writing or a comparison of values as a part of an evaluation. -/
def ofObstacle {α : Type} : Except Obstacle α → Except Fault α := Except.mapError obstacle

/-- A calculation as a part of an evaluation. -/
def ofNumber {α : Type} : Except Number.Fault α → Except Fault α := Except.mapError arithmetic

end Fault

end Stencil
