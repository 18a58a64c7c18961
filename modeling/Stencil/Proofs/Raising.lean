import Stencil.Proofs.Except
import Stencil.Value.Equality

/-!
# Errors of objects

Values are shown, written and compared by going through them, and where that fails an integer has too many digits, or an object of
the caller's has raised the error. So what is asked of the objects alone (`World.Caught`) is known of every error that comes up.
-/

namespace Stencil

/-- Objects of the plain world raise nothing. -/
theorem World.not_raises_plain (e : ObjectError) : ¬@World.Raises World.plain e := by
  intro h
  cases h with
  | text h | shown h | truth h | equals h => cases h
  | get hget => cases hget

variable [World]

/-- An obstacle is no error of an object, or one that an object raises. -/
def Obstacle.Raised : Obstacle → Prop
  | tooManyDigits _ => True
  | object e => World.Raises e

/-- An obstacle to writing: an integer is too long, of which the digits are not counted, or an object raises an error. -/
def Obstacle.Unwritten : Obstacle → Prop
  | tooManyDigits e => e = ⟨none⟩
  | object e => World.Raises e

namespace Obstacle

theorem Unwritten.raised {obstacle : Obstacle} (h : obstacle.Unwritten) : obstacle.Raised := by
  cases obstacle with
  | tooManyDigits e => trivial
  | object e => exact h

theorem failsWith_ofDigits {α : Type} (read : Except TooManyDigits α) : FailsWith Obstacle.Raised (ofDigits read) :=
  FailsWith.mapError (P := fun _ => True) (fun _ _ => trivial) fun _ _ => trivial

theorem failsWith_ofObject {α : Type} {answer : Except ObjectError α} (h : FailsWith World.Raises answer) :
    FailsWith Obstacle.Raised (ofObject answer) :=
  h.mapError fun _ he => he

theorem unwritten_ofObject {α : Type} {answer : Except ObjectError α} (h : FailsWith World.Raises answer) :
    FailsWith Obstacle.Unwritten (ofObject answer) :=
  h.mapError fun _ he => he

/-- An integer that is too long to be written is not told how long it is. -/
theorem unwritten_writeInteger (n : Int) : FailsWith Obstacle.Unwritten (ofDigits (writeInteger n)) := by
  refine FailsWith.mapError (P := fun e : TooManyDigits => e = ⟨none⟩) ?_ fun e he => he
  unfold writeInteger
  split
  · exact .ok _
  · exact .error rfl

end Obstacle

namespace Value

open Obstacle

mutual

/-- Showing a value fails with what an object raises, or with a long integer. -/
theorem unwritten_shown : (v : Value) → FailsWith Obstacle.Unwritten v.shown
  | null | bool _ | text _ | moment _ | library _ | builtin _ => .ok _
  | number (.int _) => unwritten_writeInteger _
  | number (.float _) => .ok _
  | list items => (unwritten_shownItems items).bind fun _ => .ok _
  | mapping _ values => by
    rw [shown]
    exact (FailsWith.mapM (fun i => (unwritten_shownItem (values i)).bind fun _ => .ok _) _).bind fun _ => .ok _
  | host _ => unwritten_ofObject fun _ => .shown

theorem unwritten_shownItem : (item : Nat × Value) → FailsWith Obstacle.Unwritten (shownItem item)
  | (_, v) => unwritten_shown v

theorem unwritten_shownItems : (items : List (Nat × Value)) → FailsWith Obstacle.Unwritten (shownItems items)
  | [] => .ok _
  | item :: rest => (unwritten_shownItem item).bind fun _ => (unwritten_shownItems rest).bind fun _ => .ok _

end

/-- Writing a value fails with what an object raises, or with a long integer. -/
theorem unwritten_toText (v : Value) : FailsWith Obstacle.Unwritten v.toText := by
  unfold toText
  split
  · exact .ok _
  · exact .ok _
  · split
    · split
      · exact unwritten_writeInteger _
      · exact .ok _
    · exact .ok _
  · exact .ok _
  · exact .ok _
  · exact unwritten_ofObject fun _ => .text
  · exact .ok _
  · exact .ok _
  · exact unwritten_shown _

/-- Reading the leading integer of a value fails with what an object raises, or with a long integer. -/
theorem failsWith_leadingInteger? (v : Value) : FailsWith Obstacle.Raised v.leadingInteger? := by
  refine FailsWith.bind (v.unwritten_toText.mono fun _ => Unwritten.raised) fun t => ?_
  dsimp only
  split
  · exact .ok _
  · exact (failsWith_ofDigits _).bind fun _ => .ok _

/-- Asking a value whether it counts as true fails with what an object raises. -/
theorem failsWith_truth (v : Value) : FailsWith World.Raises v.truth := by
  cases v with
  | host i => exact fun _ => .truth
  | _ => exact .ok _

theorem failsWith_askInTurn (first second : Nat) : FailsWith World.Raises (askInTurn first second) := by
  refine FailsWith.bind (fun _ => .equals) fun answer? => ?_
  cases answer? with
  | some answer => exact .ok _
  | none => exact FailsWith.bind (fun _ => .equals) fun _ => .ok _

theorem failsWith_compareObjects (i j : Nat) : FailsWith World.Raises (compareObjects i j) := by
  unfold compareObjects
  split <;> exact failsWith_askInTurn _ _

theorem failsWith_compareObject (i : Nat) (v : Value) : FailsWith World.Raises (compareObject i v) :=
  FailsWith.bind (fun _ => .equals) fun _ => .ok _

mutual

/-- Comparing two values fails with what an object raises. -/
theorem failsWith_compared : (v w : Value) → FailsWith World.Raises (compared v w)
  | host i, w => by
    cases w with
    | host j => exact failsWith_compareObjects i j
    | _ => exact failsWith_compareObject i _
  | list items, w => by
    cases w with
    | host j => exact failsWith_compareObject j _
    | list others =>
      rw [compared]
      split
      · exact (failsWith_sameItems items others).map
      · exact .ok _
    | _ => exact .ok _
  | mapping names values, w => by
    cases w with
    | host j => exact failsWith_compareObject j _
    | mapping others values' =>
      rw [compared]
      split
      · refine (FailsWith.allM (fun i => ?_) _).map
        cases others.find? (names.get i) with
        | none => exact .ok _
        | some j => exact failsWith_sameItem (values i) (values' j)
      · exact .ok _
    | _ => exact .ok _
  | null, w | bool _, w | number _, w | text _, w | moment _, w | library _, w | builtin _, w => by
    cases w with
    | host j => exact failsWith_compareObject j _
    | _ => exact .ok _

/-- The same of two items of containers. -/
theorem failsWith_sameItem : (item other : Nat × Value) → FailsWith World.Raises (sameItem item other)
  | (i, v), (j, w) => by
    rw [sameItem]
    split
    · exact .ok _
    · exact (failsWith_compared v w).bind failsWith_truth

/-- The same of two lists of items. -/
theorem failsWith_sameItems : (items others : List (Nat × Value)) → FailsWith World.Raises (sameItems items others)
  | [], _ => by
    rw [sameItems]
    · exact .ok _
    · exact nofun
  | _ :: _, [] => .ok _
  | item :: rest, other :: others => by
    rw [sameItems]
    refine (failsWith_sameItem item other).bind fun same => ?_
    split
    · exact failsWith_sameItems rest others
    · exact .ok _

end

/-- The equality of expressions fails with what an object raises, or with a long integer. -/
theorem failsWith_looselyEquals (v w : Value) : FailsWith Obstacle.Raised (v.looselyEquals w) := by
  unfold looselyEquals
  split
  · exact .ok _
  · exact .ok _
  · exact .ok _
  · exact (failsWith_ofDigits _).bind fun n? => by cases n? <;> exact .ok _
  · exact (failsWith_ofDigits _).bind fun n? => by cases n? <;> exact .ok _
  · exact failsWith_ofObject (failsWith_compared _ _)

end Value

end Stencil
