import Stencil.Notice
import Stencil.Value.Basic

/-!
# Contexts

The variables of a rendering: the builtin library under its reserved name, and the caller's values under theirs. Nothing can
be stored under the reserved name.
-/

namespace Stencil

/-- The variables of a rendering. -/
abbrev Context := Entries Value

namespace Context

/-- The name that nothing can be stored under: that of the integer library. -/
def reservedName : Text := Library.integer.name

/-- The context with no values of a caller. -/
def builtins : Context := [(reservedName, .library .integer)]

/-- The context after storing a value, unless the name is reserved. -/
def assign (name : Text) (value : Value) (context : Context) : Context :=
  if name = reservedName then context else Entries.insert name value context

/-- Storing under a name does not change what is under the others. -/
theorem get?_assign_of_ne {name other : Text} (h : other ≠ name) (value : Value) (context : Context) :
    Entries.get? other (context.assign name value) = Entries.get? other context := by
  unfold assign
  split
  · rfl
  · exact Entries.get?_insert_of_ne h value context

/-- What is stored under a name that is not reserved is under it afterwards. -/
theorem get?_assign_self {name : Text} (h : name ≠ reservedName) (value : Value) (context : Context) :
    Entries.get? name (context.assign name value) = some value := by
  rw [assign, if_neg h, Entries.get?_insert_self]

/-- Storing under a name again leaves what was stored last. -/
theorem assign_assign (name : Text) (old value : Value) (context : Context) :
    (context.assign name old).assign name value = context.assign name value := by
  unfold assign
  split
  · rfl
  · exact Entries.insert_insert name old value context

/-- Nothing is stored under the reserved name. -/
theorem get?_reservedName_assign (name : Text) (value : Value) (context : Context) :
    Entries.get? reservedName (context.assign name value) = Entries.get? reservedName context := by
  by_cases h : name = reservedName
  · rw [assign, if_pos h]
  · exact get?_assign_of_ne (Ne.symm h) value context

/-- The context of a caller's values. -/
def ofCaller (values : Entries Value) : Context :=
  values.foldl (fun context entry => context.assign entry.1 entry.2) builtins

/-- The builtin library is under the reserved name, whatever the caller's values are. -/
theorem get?_reservedName_ofCaller (values : Entries Value) :
    Entries.get? reservedName (ofCaller values) = some (.library .integer) := by
  have hfold : ∀ context : Context, Entries.get? reservedName context = some (.library .integer) →
      Entries.get? reservedName (values.foldl (fun (context : Context) entry => context.assign entry.1 entry.2) context) =
        some (.library .integer) := by
    induction values with
    | nil => exact fun _ h => h
    | cons entry values ih => exact fun context h => ih _ ((get?_reservedName_assign ..).trans h)
  exact hfold builtins rfl

/-- Under any other name is what the caller gave, if anything. -/
theorem get?_ofCaller {name : Text} (h : name ≠ reservedName) (values : Entries Value) :
    Entries.get? name (ofCaller values) = Entries.get? name (Entries.ofPairs values) := by
  have hfold : ∀ context entries : Context, Entries.get? name context = Entries.get? name entries →
      Entries.get? name (values.foldl (fun (context : Context) entry => context.assign entry.1 entry.2) context) =
        Entries.get? name (values.foldl (fun entries pair => Entries.insert pair.1 pair.2 entries) entries) := by
    induction values with
    | nil => exact fun _ _ heq => heq
    | cons entry values ih =>
      intro context entries heq
      obtain ⟨key, value⟩ := entry
      apply ih
      by_cases hn : name = key
      · subst hn
        exact (get?_assign_self h value context).trans (Entries.get?_insert_self name value entries).symm
      · exact ((get?_assign_of_ne hn value context).trans heq).trans (Entries.get?_insert_of_ne hn value entries).symm
  exact hfold builtins [] (by simp [builtins, Entries.get?, Ne.symm h])

/-- The notices of making the context of a caller's values. -/
def noticesOfCaller (values : Entries Value) : List Notice :=
  (values.filter fun entry => entry.1 = reservedName).map fun entry => .reservedValue entry.1

end Context

end Stencil
