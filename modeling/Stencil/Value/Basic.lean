import Stencil.Builtin
import Stencil.Entries
import Stencil.Moment
import Stencil.Number.Numeral

/-!
# Values

What expressions work on: the caller's values and the builtin ones. An object of the caller's of which nothing else is known is
told by its identity; what it does when it is asked is up to the world (`World`). The items of lists and mappings come with the
identities of the objects that they are, since an item may be told from another one that looks the same.
-/

namespace Stencil

/-- A value of a template. -/
inductive Value
  | null
  | bool (b : Bool)
  | number (n : Number)
  | text (t : Text)
  /-- A list of the caller's, each item with its identity; expressions cannot look into it. -/
  | list (items : List (Nat × Value))
  /-- A mapping of the caller's: under each of its names a value with its identity. -/
  | mapping (names : Names) (values : Fin names.count → Nat × Value)
  /-- A day or a time of the caller's. -/
  | moment (m : Moment)
  /-- Any other object of the caller's, by its identity. -/
  | host (identity : Nat)
  /-- A group of builtin functions. -/
  | library (l : Library)
  /-- A builtin function. -/
  | builtin (f : Builtin)
  deriving Inhabited

namespace Value

/-- An integer as a value. -/
def int (n : Int) : Value := number (.int n)

/-- The mapping that storing the items of a list under their names one after another leaves. -/
def ofPairs (pairs : List (Text × Nat × Value)) : Value :=
  let entries := Entries.ofPairs pairs
  mapping ⟨entries.names, Entries.nodup_names_ofPairs pairs⟩ fun i => (entries.get (i.cast (List.length_map ..))).2

/-- The entries of a mapping. -/
def entries (names : Names) (values : Fin names.count → Nat × Value) : Entries Value := names.entries fun i => (values i).2

/-- Whether a condition holds. Null, false, zero and the empty text do not; everything else does. -/
def truthy : Value → Bool
  | null => false
  | bool b => b
  | number n => !n.isZero
  | text t => !t.isEmpty
  | _ => true

/-- Whether a value is a number; truth values are not. -/
def isNumber : Value → Bool
  | number _ => true
  | _ => false

/-- Whether a value is a text. -/
def isText : Value → Bool
  | text _ => true
  | _ => false

/-- The value with a text that spells a number replaced by the number. -/
def coerced : Value → Except TooManyDigits Value
  | text t => do
    match ← Number.ofText? t with
    | some n => return number n
    | none => return text t
  | v => .ok v

/-- The number that a value is or spells. -/
def asNumber? : Value → Except TooManyDigits (Option Number)
  | number n => .ok (some n)
  | text t => Number.ofText? t
  | _ => .ok none

end Value

end Stencil
