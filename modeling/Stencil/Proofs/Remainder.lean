import Stencil.Proofs.Division
import Stencil.Proofs.Extremum

/-!
# The remainder of integers

A remainder lies nearer to zero than the divisor, differs from the dividend by a multiple of it, and has the sign of the dividend
(`IsRemainder`). There is one such integer for each dividend and divisor, and `%` gives it for integers of any size and for texts
that spell them (`Expr.remainder_unique`).
-/

namespace Stencil

/-- An integer is what division leaves of another one: it lies nearer to zero than the divisor, the rest of the dividend is a
multiple of the divisor, and it has the sign of the dividend unless it is zero. -/
structure IsRemainder (a b r : ℤ) : Prop where
  abs_lt : |r| < |b|
  dvd : b ∣ a - r
  sign : r = 0 ∨ r.sign = a.sign

namespace IsRemainder

variable {a b r : ℤ}

/-- A remainder lies on the same side of zero as the dividend. -/
theorem side (h : IsRemainder a b r) : (0 ≤ a → 0 ≤ r) ∧ (a ≤ 0 → r ≤ 0) := by
  rcases h.sign with rfl | hsign
  · exact ⟨fun _ => le_rfl, fun _ => le_rfl⟩
  · constructor
    · intro ha
      rwa [← Int.sign_nonneg_iff, hsign, Int.sign_nonneg_iff]
    · intro ha
      rwa [← Int.sign_nonpos_iff, hsign, Int.sign_nonpos_iff]

/-- Division leaves one integer only: two would differ by a multiple of the divisor, and lie nearer to each other than that. -/
theorem unique {r' : ℤ} (h : IsRemainder a b r) (h' : IsRemainder a b r') : r = r' := by
  have hdvd : b ∣ r - r' := by
    have hsub := dvd_sub h'.dvd h.dvd
    rwa [sub_sub_sub_cancel_left] at hsub
  have hlt : (r - r').natAbs < b.natAbs := by
    have hr := h.abs_lt
    have hr' := h'.abs_lt
    rw [Int.abs_eq_natAbs, Int.abs_eq_natAbs] at hr hr'
    have hside := h.side
    have hside' := h'.side
    omega
  exact sub_eq_zero.1 (Int.eq_zero_of_dvd_of_natAbs_lt_natAbs hdvd hlt)

/-- Division toward zero leaves the remainder. -/
theorem tmod (a : ℤ) (hb : b ≠ 0) : IsRemainder a b (a.tmod b) where
  abs_lt := by
    have hlt : a.natAbs % b.natAbs < b.natAbs := Nat.mod_lt _ (Int.natAbs_pos.2 hb)
    rw [Int.abs_eq_natAbs, Int.abs_eq_natAbs, Int.natAbs_tmod]
    exact Nat.cast_lt.2 hlt
  dvd := Int.dvd_self_sub_tmod
  sign := by
    by_cases hdvd : b ∣ a
    · exact .inl (Int.tmod_eq_zero_of_dvd hdvd)
    · exact .inr (by rw [Int.sign_tmod, if_neg hdvd])

end IsRemainder

/-- A variable holds an integer, or a text that spells it. -/
def Context.HoldsInteger (context : Context) (x : Text) (z : ℤ) : Prop :=
  ∃ v, Entries.get? x context = some v ∧ v.SpellsInt z

/-- What is looked up under such a variable is the integer. -/
theorem Context.HoldsInteger.lookup {context : Context} {x : Text} {z : ℤ} (h : context.HoldsInteger x z) :
    Value.lookup x context = .ok (.int z) := by
  obtain ⟨v, hv, hz⟩ := h
  rw [Value.lookup, hv, Option.getD_some, Value.spellsInt_iff.1 hz]
  rfl

namespace Expr

variable {context : Context} {x y : Text} {a b : ℤ}

theorem evaluate_remainder [World] (hx : Text.isName x = true) (hy : Text.isName y = true) (ha : context.HoldsInteger x a)
    (hb : context.HoldsInteger y b) (hne : b ≠ 0) :
    evaluate context (operation .remainder x y) = .ok (.int (a.tmod b)) :=
  (evaluate_operation hx hy .remainder ha.lookup hb.lookup).trans (BinaryOp.remainder_apply_int hne)

/-- The remainder of two variables that hold integers, or texts that spell them, is the one integer that division leaves. The
opposite dividend has the opposite remainder, the opposite divisor has the same one, and the remainder is what is left of itself. -/
theorem remainder_unique [World] (hx : Text.isName x = true) (hy : Text.isName y = true) (ha : context.HoldsInteger x a)
    (hb : context.HoldsInteger y b) (hne : b ≠ 0) :
    ∃ r, evaluate context (operation .remainder x y) = .ok (.int r) ∧ (∀ z, IsRemainder a b z ↔ z = r) ∧
      ∀ other : Context,
        (other.HoldsInteger x (-a) → other.HoldsInteger y b →
          evaluate other (operation .remainder x y) = .ok (.int (-r))) ∧
        (other.HoldsInteger x a → other.HoldsInteger y (-b) →
          evaluate other (operation .remainder x y) = .ok (.int r)) ∧
        (other.HoldsInteger x r → other.HoldsInteger y b →
          evaluate other (operation .remainder x y) = .ok (.int r)) := by
  have hremainder : ∀ z, IsRemainder a b z ↔ z = a.tmod b :=
    fun z => ⟨fun h => h.unique (.tmod a hne), fun h => h ▸ .tmod a hne⟩
  refine ⟨a.tmod b, evaluate_remainder hx hy ha hb hne, hremainder, fun other => ⟨?_, ?_, ?_⟩⟩
  · intro hdividend hdivisor
    rw [evaluate_remainder hx hy hdividend hdivisor hne, Int.neg_tmod]
  · intro hdividend hdivisor
    rw [evaluate_remainder hx hy hdividend hdivisor (neg_ne_zero.2 hne), Int.tmod_neg]
  · intro hdividend hdivisor
    rw [evaluate_remainder hx hy hdividend hdivisor hne, Int.tmod_tmod]

open scoped World in
/-- Minus seven, spelled by a text between blanks, by three, and the opposite ones. -/
theorem remainder_unique_negative :
    let context (a b : Text) : Context := [("a".toList, .text a), ("b".toList, .text b)]
    ((context " -7 " "3").HoldsInteger "a" (-7) ∧ (context " -7 " "3").HoldsInteger "b" 3) ∧
      (∀ z, IsRemainder (-7) 3 z ↔ z = -1) ∧
      evaluate (context " -7 " "3") "$a % $b" = .ok (.int (-1)) ∧
      evaluate (context "7" "3") "$a % $b" = .ok (.int 1) ∧
      evaluate (context "-7" "-3") "$a % $b" = .ok (.int (-1)) ∧
      evaluate (context "-1" "3") "$a % $b" = .ok (.int (-1)) := by
  intro context
  have hholds {v : Value} {name : Text} {z : ℤ} {values : Context} (hget : Entries.get? name values = some v)
      (hread : v.coerced = .ok (.int z)) : values.HoldsInteger name z := ⟨v, hget, Value.spellsInt_iff.2 hread⟩
  have ha : (context " -7 " "3").HoldsInteger "a" (-7) := hholds rfl rfl
  have hb : (context " -7 " "3").HoldsInteger "b" 3 := hholds rfl rfl
  obtain ⟨r, hr, hunique, hother⟩ := remainder_unique (x := "a") (y := "b") rfl rfl ha hb (by decide)
  have hminus : -1 = r := (hunique (-1)).1 ⟨by decide, by decide, by decide⟩
  subst hminus
  exact ⟨⟨ha, hb⟩, hunique, hr, (hother _).1 (hholds rfl rfl) (hholds rfl rfl),
    (hother _).2.1 (hholds rfl rfl) (hholds rfl rfl), (hother _).2.2 (hholds rfl rfl) (hholds rfl rfl)⟩

end Expr

end Stencil
