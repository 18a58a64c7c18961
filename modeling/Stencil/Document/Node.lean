import Stencil.Document.Word

/-!
# Nodes of a document

What a values document spells before its words are looked at: words, lists and mappings. Every rule of the spelling is
checked before any word is given its value. Then the words that stand directly in outer containers come before those in
inner ones, and the first that has no value is what is told.
-/

namespace Stencil

/-- A word, or lists and mappings of words. -/
inductive Node
  | word (w : Word)
  | list (items : List Node)
  | mapping (entries : List (Word × Node))

namespace Node

/-- The node that stands for null. -/
def absent : Node := word .absent

/-- What is wrong with a word, and in how many containers it stands. -/
structure Fault where
  /-- The count of containers around the word. -/
  depth : Nat
  /-- What is wrong. -/
  error : DocumentError

/-- The one of two faults in order that is met first: the less deep one, or else the earlier. -/
def Fault.first : Option Fault → Option Fault → Option Fault
  | some f, some g => some (if g.depth < f.depth then g else f)
  | f, g => f.or g

/-- The fault of a result, if it is one. -/
def Fault.of? {α : Type} (depth : Nat) : Except DocumentError α → Option Fault
  | .error e => some ⟨depth, e⟩
  | .ok _ => none

mutual

/-- The fault of a node that is met first. A name that takes over entries is looked for before all else in its mapping. -/
def fault? (depth : Nat) : Node → Option Fault
  | word w => Fault.of? depth w.value
  | list items => itemsFault? (depth + 1) items
  | mapping entries =>
    if entries.any (·.1.isMerge) then some ⟨depth + 1, .broken⟩ else entriesFault? (depth + 1) entries

/-- The fault of the items of a list that is met first. -/
def itemsFault? (depth : Nat) : List Node → Option Fault
  | [] => none
  | item :: rest => Fault.first (fault? depth item) (itemsFault? depth rest)

/-- The fault of the entries of a mapping that is met first. -/
def entriesFault? (depth : Nat) : List (Word × Node) → Option Fault
  | [] => none
  | (w, item) :: rest =>
    Fault.first (Fault.first (Fault.of? depth w.name?) (fault? depth item)) (entriesFault? depth rest)

end

mutual

/-- The value of a node whose items are numbered from `next`, and the next free number. -/
def evaluate (next : Nat) : Node → Except DocumentError (Value × Nat)
  | word w => do return (← w.value, next)
  | list items => do
    let (items, free) ← evaluateItems next items
    return (.list items, free)
  | mapping entries => do
    let (pairs, free) ← evaluateEntries next entries
    return (.ofPairs pairs, free)

/-- The items of a list. -/
def evaluateItems (next : Nat) : List Node → Except DocumentError (List (Nat × Value) × Nat)
  | [] => .ok ([], next)
  | item :: rest => do
    let (v, free) ← evaluate (next + 1) item
    let (items, free) ← evaluateItems free rest
    return ((next, v) :: items, free)

/-- The items of a mapping that stand under names, in order. -/
def evaluateEntries (next : Nat) : List (Word × Node) → Except DocumentError (List (Text × Nat × Value) × Nat)
  | [] => .ok ([], next)
  | (w, item) :: rest => do
    let name? ← w.name?
    let (v, free) ← evaluate (next + 1) item
    let (pairs, free) ← evaluateEntries free rest
    return (name?.elim pairs fun name => (name, next, v) :: pairs, free)

end

/-- The value of a node. -/
def value (node : Node) : Except DocumentError Value :=
  match node.fault? 0 with
  | some f => .error f.error
  | none => do return (← node.evaluate 0).1

end Node

end Stencil
