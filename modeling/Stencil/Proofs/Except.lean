import Mathlib.Data.List.Forall2

/-!
# Results that may be errors

What it means for a composed result to be a value, and for it to be an error: the steps of a `do` block, taken apart.
-/

namespace Stencil

variable {ε α β : Type} {result : Except ε α} {next : α → Except ε β}

/-- A composed result is a value exactly if its first part is one from which its second part is that value. -/
theorem bind_ok_iff {b : β} : result >>= next = .ok b ↔ ∃ a, result = .ok a ∧ next a = .ok b := by
  rcases result with e | a <;> simp only [bind, Except.bind, reduceCtorEq, Except.ok.injEq, false_and, exists_false,
    exists_eq_left']

/-- A result with its value changed is a value exactly if the result is one that is changed to it. -/
theorem map_ok_iff {f : α → β} {b : β} : f <$> result = .ok b ↔ ∃ a, result = .ok a ∧ f a = b := by
  rcases result with e | a <;> simp only [Functor.map, Except.map, reduceCtorEq, Except.ok.injEq, false_and, exists_false,
    exists_eq_left']

/-- A composed result is an error exactly if its first part is that error, or is a value from which its second part is. -/
theorem bind_error_iff {e : ε} :
    result >>= next = .error e ↔ result = .error e ∨ ∃ a, result = .ok a ∧ next a = .error e := by
  rcases result with e' | a <;> simp only [bind, Except.bind, reduceCtorEq, Except.ok.injEq, Except.error.injEq,
    false_and, exists_false, or_false, false_or, exists_eq_left']

theorem bind_pure_error_iff {f : α → β} {e : ε} : (result >>= fun a => pure (f a)) = .error e ↔ result = .error e := by
  rw [bind_error_iff, or_iff_left]
  rintro ⟨a, -, h⟩
  cases h

/-- Two results one after another are an error exactly if one of them is. -/
theorem bind_bind_fails_iff {γ : Type} {second : Except ε β} {f : α → β → γ} :
    (∃ e, (do return f (← result) (← second)) = .error e) ↔ (∃ e, result = .error e) ∨ ∃ e, second = .error e := by
  cases result with
  | error e => exact iff_of_true ⟨e, rfl⟩ (.inl ⟨e, rfl⟩)
  | ok a =>
    rw [or_iff_right nofun]
    exact exists_congr fun e => bind_pure_error_iff

theorem mapError_ok_iff {ε' : Type} {f : ε → ε'} {a : α} : result.mapError f = .ok a ↔ result = .ok a := by
  rcases result with e | b
  · constructor <;> intro h <;> cases h
  · constructor <;> intro h <;> cases h <;> rfl

/-- A result with its errors turned into others is an error exactly if the result is one that is turned into it. -/
theorem mapError_error_iff {ε' : Type} {f : ε → ε'} {e : ε'} :
    result.mapError f = .error e ↔ ∃ e', result = .error e' ∧ f e' = e := by
  constructor
  · intro h
    rcases result with e' | b
    · exact ⟨e', rfl, Except.error.inj h⟩
    · cases h
  · rintro ⟨e', rfl, rfl⟩
    rfl

/-- Results one after another are values exactly if each of them is one. -/
theorem mapM_ok_iff {f : α → Except ε β} {items : List α} {values : List β} :
    items.mapM f = .ok values ↔ List.Forall₂ (fun item value => f item = .ok value) items values := by
  induction items generalizing values with
  | nil =>
    rw [List.mapM_nil, List.forall₂_nil_left_iff]
    exact ⟨fun h => (Except.ok.inj h).symm, fun h => h ▸ rfl⟩
  | cons item items ih =>
    rw [List.mapM_cons, List.forall₂_cons_left_iff, bind_ok_iff]
    refine exists_congr fun value => ?_
    rw [bind_ok_iff]
    constructor
    · rintro ⟨hvalue, rest, hrest, hvalues⟩
      exact ⟨rest, hvalue, ih.1 hrest, (Except.ok.inj hvalues).symm⟩
    · rintro ⟨rest, hvalue, hrest, rfl⟩
      exact ⟨hvalue, rest, ih.2 hrest, rfl⟩

/-- Results one after another are an error exactly if one of them is. -/
theorem mapM_fails_iff {f : α → Except ε β} (items : List α) :
    (∃ e, items.mapM f = .error e) ↔ ∃ item ∈ items, ∃ e, f item = .error e := by
  induction items with
  | nil => exact iff_of_false nofun fun ⟨_, h, _⟩ => nomatch h
  | cons item items ih =>
    rw [List.mapM_cons, bind_bind_fails_iff, ih]
    simp only [List.mem_cons, exists_eq_or_imp]

/-- Truth values that are results without errors hold for all items exactly as they do without being results. -/
theorem allM_eq {f : α → Except ε Bool} {g : α → Bool} (h : ∀ a, f a = .ok (g a)) (items : List α) :
    items.allM f = .ok (items.all g) := by
  induction items with
  | nil => rfl
  | cons item items ih =>
    rw [List.allM, h item, List.all_cons]
    cases g item with
    | false => rfl
    | true => exact ih

/-! ## Which errors a result may be -/

/-- A result is a value, or an error of which something is known. -/
def FailsWith (P : ε → Prop) (result : Except ε α) : Prop := ∀ e, result = .error e → P e

namespace FailsWith

variable {P : ε → Prop}

theorem ok (a : α) : FailsWith P (.ok a : Except ε α) := nofun

theorem error {e : ε} (h : P e) : FailsWith P (.error e : Except ε α) := by
  rintro e' ⟨⟩
  exact h

theorem bind (h : FailsWith P result) (hnext : ∀ a, FailsWith P (next a)) : FailsWith P (result >>= next) := by
  intro e he
  obtain herror | ⟨a, -, herror⟩ := bind_error_iff.1 he
  · exact h e herror
  · exact hnext a e herror

theorem map {f : α → β} (h : FailsWith P result) : FailsWith P (f <$> result) := by
  rintro e he
  cases result with
  | error e' => exact h e (by cases he; rfl)
  | ok a => cases he

theorem mono {Q : ε → Prop} (h : FailsWith P result) (hPQ : ∀ e, P e → Q e) : FailsWith Q result := fun e he => hPQ e (h e he)

/-- Errors that are turned into others. -/
theorem mapError {ε' : Type} {Q : ε' → Prop} {f : ε → ε'} (h : FailsWith P result) (hf : ∀ e, P e → Q (f e)) :
    FailsWith Q (result.mapError f) := by
  intro e he
  obtain ⟨e', he', rfl⟩ := mapError_error_iff.1 he
  exact hf e' (h e' he')

/-- Results one after another. -/
theorem mapM (hnext : ∀ a, FailsWith P (next a)) (items : List α) : FailsWith P (items.mapM next) := by
  induction items with
  | nil => exact ok []
  | cons item items ih =>
    rw [List.mapM_cons]
    exact (hnext item).bind fun b => ih.bind fun bs => ok (b :: bs)

/-- Truth values that are results, up to the first that does not hold. -/
theorem allM {f : α → Except ε Bool} (hf : ∀ a, FailsWith P (f a)) (items : List α) : FailsWith P (items.allM f) := by
  induction items with
  | nil => exact ok true
  | cons item items ih =>
    rw [List.allM]
    refine (hf item).bind fun b => ?_
    cases b with
    | false => exact ok false
    | true => exact ih

end FailsWith

end Stencil
