import Stencil.Template.Assignment

/-!
# Bodies of assignments

A body is an assignment exactly if it is written as one, from its first character to its last (`ofBody?_eq_some_iff`).
-/

namespace Stencil

/-- All characters of a text are blank. -/
def Text.Blank (t : Text) : Prop := ∀ c ∈ t, Text.isBlank c = true

instance (t : Text) : Decidable t.Blank := List.decidableBAll _ t

/-- A text starts with a character that is not blank, or is empty. -/
def Text.Unindented (t : Text) : Prop := ∀ c ∈ t.head?, Text.isBlank c = false

/-- What is left of a text without its leading blanks is what follows them. -/
theorem Text.trimLeft_eq_iff {t rest : Text} :
    trimLeft t = rest ↔ ∃ blanks : Text, blanks.Blank ∧ t = blanks ++ rest ∧ rest.Unindented := by
  unfold trimLeft
  constructor
  · rintro rfl
    exact ⟨t.takeWhile isBlank, List.all_eq_true.1 List.all_takeWhile, List.takeWhile_append_dropWhile.symm,
      fun c hc => not_of_mem_head?_dropWhile hc⟩
  · rintro ⟨blanks, hb, rfl, hrest⟩
    exact dropWhile_append hb hrest

/-- A name does not go on with a blank. -/
theorem Text.isNamePart_of_isBlank {c : Char} (h : isBlank c = true) : isNamePart c = false := by
  rw [Bool.eq_false_iff]
  intro hn
  have hrange := toNat_of_isNamePart hn
  simp only [isBlank, blankRanges, List.any_cons, List.any_nil, Bool.or_false, Bool.or_eq_true, Bool.and_eq_true,
    decide_eq_true_iff] at h
  omega

/-- What a name goes on with is no blank. -/
theorem Text.isBlank_of_isNamePart {c : Char} (h : isNamePart c = true) : isBlank c = false := by
  rw [Bool.eq_false_iff]
  intro hc
  rw [isNamePart_of_isBlank hc] at h
  cases h

/-- A name before blanks and an equals sign does not go on. -/
theorem Text.Blank.not_isNamePart {between : Text} (h : between.Blank) (after : Text) :
    ∀ c ∈ (between ++ '=' :: after).head?, isNamePart c = false := by
  intro c hc
  cases between with
  | nil =>
    cases hc
    rfl
  | cons d between =>
    cases hc
    exact isNamePart_of_isBlank (h _ List.mem_cons_self)

namespace Assignment

/-- How an assignment is written: blanks, a dollar sign and the name, blanks, an equals sign, blanks, and the expression. -/
structure Written (a : Assignment) (body : Text) : Prop where
  /-- The name is one. -/
  name : Text.isName a.name = true
  /-- There is an expression. -/
  expression : a.expression ≠ []
  /-- The expression starts with its first character that is not blank. -/
  unindented : a.expression.Unindented
  /-- The body, from its first character to its last. -/
  body : ∃ before between after : Text, before.Blank ∧ between.Blank ∧ after.Blank ∧
    body = before ++ '$' :: (a.name ++ (between ++ '=' :: (after ++ a.expression)))

/-- A body is read as the assignment that it is written as. -/
theorem ofBody?_eq_some_iff {body : Text} {a : Assignment} : ofBody? body = some a ↔ a.Written body := by
  constructor
  · intro h
    unfold ofBody? at h
    split at h
    · rename_i rest hbody
      split at h
      · cases h
      · rename_i name after hname
        split at h
        · rename_i value hafter
          split at h
          · cases h
          · rename_i hne
            cases h
            obtain ⟨before, hbefore, rfl, -⟩ := Text.trimLeft_eq_iff.1 hbody
            obtain ⟨rfl, hn, -⟩ := Text.takeName?_eq_some_iff.1 hname
            obtain ⟨between, hbetween, rfl, -⟩ := Text.trimLeft_eq_iff.1 hafter
            obtain ⟨blanks, hblanks, hvalue, hu⟩ := Text.trimLeft_eq_iff.1 (rfl : Text.trimLeft value = _)
            exact ⟨hn, hne, hu, before, between, blanks, hbefore, hbetween, hblanks, by rw [← hvalue]⟩
        · cases h
    · cases h
  · rintro ⟨hn, hne, hu, before, between, after, hbefore, hbetween, hafter, rfl⟩
    obtain ⟨name, expression⟩ := a
    have hbody : Text.trimLeft (before ++ '$' :: (name ++ (between ++ '=' :: (after ++ expression)))) =
        '$' :: (name ++ (between ++ '=' :: (after ++ expression))) :=
      Text.trimLeft_eq_iff.2 ⟨before, hbefore, rfl, fun c hc => by cases hc; rfl⟩
    have hname : Text.takeName? (name ++ (between ++ '=' :: (after ++ expression))) =
        some (name, between ++ '=' :: (after ++ expression)) :=
      Text.takeName?_eq_some_iff.2 ⟨rfl, hn, hbetween.not_isNamePart _⟩
    have hequals : Text.trimLeft (between ++ '=' :: (after ++ expression)) = '=' :: (after ++ expression) :=
      Text.trimLeft_eq_iff.2 ⟨between, hbetween, rfl, fun c hc => by cases hc; rfl⟩
    have hvalue : Text.trimLeft (after ++ expression) = expression :=
      Text.trimLeft_eq_iff.2 ⟨after, hafter, rfl, hu⟩
    unfold ofBody?
    simp only [hbody, hname, hequals, hvalue]

end Assignment

end Stencil
