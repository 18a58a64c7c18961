import Stencil.Proofs.Except
import Stencil.Template.Reference

/-!
# Interpolation

Interpolation reads a text once, from left to right. What it writes for two texts, one after the other, is what it writes for each,
unless a reference is cut between them (`interpolate_append`).
-/

namespace Stencil

/-- What two parts write in turn, or the error of the first one that has any. -/
def inTurn (first second : Except Obstacle Text) : Except Obstacle Text := do
  return (← first) ++ (← second)

/-- Three parts in turn, however they are put together. -/
theorem inTurn_assoc (a b c : Except Obstacle Text) :
    inTurn (inTurn a b) c = inTurn a (inTurn b c) := by
  unfold inTurn
  cases a with
  | error e => rfl
  | ok a =>
    cases b with
    | error e => rfl
    | ok b =>
      cases c with
      | error e => rfl
      | ok c => exact congrArg Except.ok (List.append_assoc a b c)

theorem inTurn_nil (a : Except Obstacle Text) : inTurn (.ok []) a = a := by
  cases a <;> rfl

/-- What the items of a list write in turn. -/
def eachInTurn {α : Type} (write : α → Except Obstacle Text) (items : List α) : Except Obstacle Text := do
  return (← items.mapM write).flatten

/-- One more item in front. -/
theorem eachInTurn_cons {α : Type} (write : α → Except Obstacle Text) (item : α) (items : List α) :
    eachInTurn write (item :: items) = inTurn (write item) (eachInTurn write items) := by
  unfold eachInTurn inTurn
  rw [List.mapM_cons]
  cases write item with
  | error e => rfl
  | ok t => cases items.mapM write <;> rfl

variable {entries : Entries Value}

/-- One more character in front of pieces is written as it is. -/
theorem Piece.written_pushChar [World] (c : Char) (pieces : List Piece) :
    eachInTurn (written entries) (pushChar c pieces) = inTurn (.ok [c]) (eachInTurn (written entries) pieces) := by
  cases pieces with
  | nil => rfl
  | cons piece pieces =>
    cases piece with
    | literal t =>
      rw [pushChar, eachInTurn_cons, eachInTurn_cons, ← inTurn_assoc]
      rfl
    | reference name =>
      rw [pushChar, eachInTurn_cons]
      · rfl
      · exact nofun

theorem interpolate_eq [World] (t : Text) : interpolate entries t = eachInTurn (Piece.written entries) (Piece.ofText t) := rfl

/-! ## From left to right -/

theorem interpolate_nil [World] : interpolate entries [] = .ok [] := by
  rw [interpolate_eq, Piece.ofText]
  rfl

/-- A character that starts no reference is written as it is. -/
theorem interpolate_cons [World] {c : Char} {rest : Text} (h : c = '$' → Text.takeName? rest = none) :
    interpolate entries (c :: rest) = inTurn (.ok [c]) (interpolate entries rest) := by
  have hpieces : Piece.ofText (c :: rest) = Piece.pushChar c (Piece.ofText rest) := by
    rw [Piece.ofText]
    by_cases hc : c = '$'
    · rw [if_pos hc, h hc]
    · rw [if_neg hc]
  rw [interpolate_eq, interpolate_eq, hpieces, Piece.written_pushChar]

/-- The value of a reference is written in its place. -/
theorem interpolate_reference [World] {rest name after : Text} (h : Text.takeName? rest = some (name, after)) :
    interpolate entries ('$' :: rest) = inTurn ((Piece.reference name).written entries) (interpolate entries after) := by
  obtain ⟨rfl, -, -⟩ := Text.takeName?_eq_some_iff.1 h
  have hpieces : Piece.ofText ('$' :: (name ++ after)) = .reference name :: Piece.ofText after := by
    rw [Piece.ofText, if_pos rfl, h]
    simp only [List.drop_left]
  rw [interpolate_eq, interpolate_eq, hpieces, eachInTurn_cons]

/-! ## One text after another -/

/-- A reference may be cut between two texts: the first ends with a dollar sign and characters of a name, and the second goes on
with another character of a name. -/
def CutsReference (s t : Text) : Prop :=
  (∃ before name : Text, s = before ++ '$' :: name ∧ ∀ c ∈ name, Text.isNamePart c = true) ∧
    ∃ c ∈ t.head?, Text.isNamePart c = true

/-- What is cut at the end of a text is cut at the end of every text that ends with it. -/
theorem CutsReference.append_left {s t : Text} (h : CutsReference s t) (before : Text) : CutsReference (before ++ s) t := by
  obtain ⟨⟨front, name, rfl, hname⟩, ht⟩ := h
  exact ⟨⟨before ++ front, name, by rw [List.append_assoc], hname⟩, ht⟩

theorem not_cutsReference_of_head {s t : Text} (h : ∀ c ∈ t.head?, Text.isNamePart c = false) : ¬ CutsReference s t := by
  rintro ⟨-, c, hc, hpart⟩
  rw [h c hc] at hpart
  cases hpart

theorem not_cutsReference_of_notMem {s t : Text} (h : '$' ∉ s) : ¬ CutsReference s t := by
  rintro ⟨⟨before, name, rfl, -⟩, -⟩
  exact h (List.mem_append_right _ List.mem_cons_self)

/-- A name is taken from a text exactly if the text starts with a character that a name may start with. -/
theorem takeName?_eq_none_iff {t : Text} : Text.takeName? t = none ↔ ∀ c ∈ t.head?, Text.isNameStart c = false := by
  cases t with
  | nil => exact iff_of_true rfl nofun
  | cons c t =>
    rw [Text.takeName?]
    cases hc : Text.isNameStart c <;> simp [hc]

/-- Interpolation of one text after another is that of each, if no reference is cut between them. By induction on the pieces of
the first. -/
theorem interpolate_append [World] {s t : Text} (h : ¬ CutsReference s t) :
    interpolate entries (s ++ t) = inTurn (interpolate entries s) (interpolate entries t) := by
  induction s using Piece.ofText.induct with
  | case1 => rw [List.nil_append, interpolate_nil, inTurn_nil]
  | case2 rest name after htake ih =>
    obtain ⟨rfl, hname, hafter⟩ := Text.takeName?_eq_some_iff.1 htake
    have hwhole : Text.takeName? (name ++ after ++ t) = some (name, after ++ t) := by
      refine Text.takeName?_eq_some_iff.2 ⟨List.append_assoc .., hname, fun c hc => ?_⟩
      cases after with
      | nil =>
        -- The name ends the first text, so the second must not go on with it.
        rw [← Bool.not_eq_true]
        intro hpart
        exact h ⟨⟨[], name, by rw [List.append_nil]; rfl, fun d hd => Text.isNamePart_of_mem hname hd⟩, c, hc, hpart⟩
      | cons d after => exact hafter c hc
    rw [List.drop_left] at ih
    have hrest : ¬ CutsReference after t := fun hcut => h (hcut.append_left ('$' :: name))
    rw [List.cons_append, interpolate_reference hwhole, interpolate_reference htake, ih hrest, inTurn_assoc]
  | case3 rest htake ih =>
    have hrest : ¬ CutsReference rest t := fun hcut => h (hcut.append_left ['$'])
    have hwhole : Text.takeName? (rest ++ t) = none := by
      refine takeName?_eq_none_iff.2 fun c hc => ?_
      cases rest with
      | nil =>
        rw [← Bool.not_eq_true]
        intro hstart
        exact h ⟨⟨[], [], rfl, nofun⟩, c, hc, Text.isNamePart_of_isNameStart hstart⟩
      | cons d rest => exact takeName?_eq_none_iff.1 htake c hc
    rw [List.cons_append, interpolate_cons fun _ => hwhole, interpolate_cons fun _ => htake, ih hrest, inTurn_assoc]
  | case4 c rest hc ih =>
    have hrest : ¬ CutsReference rest t := fun hcut => h (hcut.append_left [c])
    rw [List.cons_append, interpolate_cons fun he => absurd he hc, interpolate_cons fun he => absurd he hc, ih hrest,
      inTurn_assoc]

end Stencil
