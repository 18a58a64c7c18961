import Stencil.Value.Basic

/-!
# The world of the caller

What an object of the caller's does when it is written, compared or looked into is up to the object, and how the code of a
builtin function is shown is up to the machine that it runs on. A *world* says all of this; the definitions and theorems of this
library are about every world. An object does the same each time it is asked, and changes nothing by it.
-/

namespace Stencil

/-- What kind of error an object raises. -/
inductive ObjectError.Kind
  | arithmetic | value | type | recursion | other
  deriving DecidableEq

/-- An error that an object raises when it is asked for something. -/
structure ObjectError where
  /-- Its kind. -/
  kind : ObjectError.Kind
  /-- Its words. -/
  message : Text
  deriving DecidableEq

/-- What the objects of a caller do, each known by its identity, and how the code of builtin functions is shown. -/
class World where
  /-- The name of an object's class. -/
  className : Nat → Text
  /-- An object as it is written into output. -/
  text : Nat → Except ObjectError Text
  /-- An object as it is shown inside messages and containers. -/
  shown : Nat → Except ObjectError Text
  /-- Whether an object counts as true. -/
  truth : Nat → Except ObjectError Bool
  /-- What an object answers if it is asked whether it equals a value. It may answer anything, and gives nothing where it leaves
  the answer to the other side. -/
  equals : Nat → Value → Except ObjectError (Option Value)
  /-- Whether the class of an object is a special case of that of another one. Such an object is asked before the other one. -/
  refines : Nat → Nat → Bool
  /-- What is under the names of an object that is a mapping: null where nothing is. -/
  get? : Nat → Option (Text → Except ObjectError Value)
  /-- The code of a builtin function as it is shown. -/
  code : Builtin → Text

namespace World

/-- The world of objects that know nothing but their identity. -/
scoped instance plain : World where
  className _ := "object".toList
  text i := .ok ("<object " ++ Text.numeral i ++ ">".toList)
  shown i := .ok ("<object " ++ Text.numeral i ++ ">".toList)
  truth _ := .ok true
  equals _ _ := .ok none
  refines _ _ := false
  get? _ := none
  code f := "<function " ++ f.name ++ ">".toList

/-! ## What may be asked of a world

The rules for objects ask that equality gives truth values, that it goes both ways and that it does not fail. A world need not
keep them, so what rests on them says so. -/

variable [World]

/-- Objects that answer whether they equal a value answer with truth values. -/
def AnswersTruth : Prop := ∀ i v answer, equals i v = .ok (some answer) → ∃ b, answer = .bool b

/-- Objects keep the rules for equality. -/
structure Lawful : Prop where
  /-- Answers are truth values. -/
  answersTruth : AnswersTruth
  /-- Being asked does not fail. -/
  answers : ∀ i v, ∃ answer?, equals i v = .ok answer?
  /-- Two objects that both answer whether they equal each other give the same answer. -/
  agree : ∀ i j answer answer', equals i (.host j) = .ok (some answer) → equals j (.host i) = .ok (some answer') →
    answer = answer'

/-- An object may raise an error, whatever it is asked for. -/
inductive Raises : ObjectError → Prop
  | text {i : Nat} {e : ObjectError} : World.text i = .error e → Raises e
  | shown {i : Nat} {e : ObjectError} : World.shown i = .error e → Raises e
  | truth {i : Nat} {e : ObjectError} : World.truth i = .error e → Raises e
  | equals {i : Nat} {v : Value} {e : ObjectError} : World.equals i v = .error e → Raises e
  | get {i : Nat} {get : Text → Except ObjectError Value} {key : Text} {e : ObjectError} :
      World.get? i = some get → get key = .error e → Raises e

/-- Objects raise errors of the kinds that an evaluation catches only. -/
def Caught : Prop := ∀ e, Raises e → e.kind ≠ .other

end World

end Stencil
