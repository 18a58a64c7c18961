import Mathlib.Order.Monotone.Basic
import Stencil.Proofs.Truncation

/-!
# Rounding to binary64 numbers

A quotient is rounded to a finite binary64 number that no other one is nearer to, and to one with an even significand where two are
as near (`Binary64.isNearest_ofRatio`).
-/

namespace Stencil.Binary64

/-! ## The magnitudes in order -/

/-- The units of a rank from how often its binade is doubled and its significand. -/
theorem units_of_significand {shift significand : Nat} (hle : significand ≤ 2 * binade) (hge : shift = 0 ∨ binade ≤ significand) :
    units (shift * binade + significand) = significand * 2 ^ shift := by
  rcases Nat.lt_or_eq_of_le hle with hlt | rfl
  · have hshift : shiftOf (shift * binade + significand) = shift := by
      unfold shiftOf binade at *
      omega
    rw [units, hshift, Nat.add_sub_cancel_left, Nat.shiftLeft_eq]
  · -- The last magnitude of a binade is the first one of the next.
    have hshift : shiftOf (shift * binade + 2 * binade) = shift + 1 := by
      unfold shiftOf binade
      omega
    have hsub : shift * binade + 2 * binade - (shift + 1) * binade = binade := by
      unfold binade
      omega
    rw [units, hshift, hsub, Nat.shiftLeft_eq, Nat.pow_succ]
    ring

/-- Every rank has a significand in its binade. -/
theorem exists_significand (rank : Nat) : ∃ shift significand, rank = shift * binade + significand ∧ significand < 2 * binade ∧
    (shift = 0 ∨ binade ≤ significand) := by
  refine ⟨shiftOf rank, rank - shiftOf rank * binade, ?_⟩
  unfold shiftOf binade
  omega

/-- From a significand to the next one the magnitude grows by the step of the binade. -/
theorem units_succ {shift significand : Nat} (hlt : significand < 2 * binade) (hge : shift = 0 ∨ binade ≤ significand) :
    units (shift * binade + significand + 1) = units (shift * binade + significand) + 2 ^ shift := by
  rw [Nat.add_assoc, units_of_significand hlt (hge.imp_right Nat.le_succ_of_le), units_of_significand hlt.le hge, Nat.succ_mul]

/-- Magnitudes grow with their ranks. -/
theorem units_strictMono : StrictMono units := by
  refine strictMono_nat_of_lt_succ fun rank => ?_
  obtain ⟨shift, significand, rfl, hlt, hge⟩ := exists_significand rank
  rw [units_succ hlt hge]
  exact Nat.lt_add_of_pos_right (Nat.two_pow_pos shift)

/-! ## The nearest magnitude -/

/-- A whole number that is rounded to lies at most half the divisor away, and is even at exactly half of it. -/
theorem divideToEven_spec (n : Nat) {d : Nat} (hd : 0 < d) :
    2 * n ≤ 2 * (divideToEven n d * d) + d ∧ 2 * (divideToEven n d * d) ≤ 2 * n + d ∧
      (2 * n = 2 * (divideToEven n d * d) + d ∨ 2 * (divideToEven n d * d) = 2 * n + d → divideToEven n d % 2 = 0) := by
  have hdiv : n / d * d + n % d = n := Nat.div_add_mod' n d
  have hmod : n % d < d := Nat.mod_lt n hd
  have hsucc : (n / d + 1) * d = n / d * d + d := Nat.succ_mul (n / d) d
  simp only [divideToEven]
  split
  · omega
  · split
    · rw [hsucc]
      omega
    · rcases Nat.mod_two_eq_zero_or_one (n / d) with heven | hodd
      · rw [heven, Nat.add_zero]
        omega
      · rw [hodd, hsucc]
        omega

/-- A quotient and its distance from the next integer, in parts of the divisor. -/
theorem add_distance (n : Nat) {d : Nat} (hd : 0 < d) : n + (d - n % d) = (n / d + 1) * d := by
  have hdiv : n / d * d + n % d = n := Nat.div_add_mod' n d
  have hmod : n % d < d := Nat.mod_lt n hd
  rw [Nat.add_one_mul]
  omega

/-- The distance from a number to one that is so much larger. -/
theorem le_natAbs_sub {a b distance : Nat} (h : a + distance ≤ b) : distance ≤ ((a : ℤ) - b).natAbs := by
  omega

/-- What the rank nearest to a quotient is made of: its significand is the quotient in steps of its binade, rounded to a whole
number. Above the first binade the quotient has a full significand. -/
theorem nearestRank_eq (n : Nat) {d : Nat} (hd : 0 < d) : ∃ shift,
    nearestRank n d = shift * binade + divideToEven (n * unitsPerOne) (d * 2 ^ shift) ∧
      n * unitsPerOne < 2 * binade * (d * 2 ^ shift) ∧ (shift = 0 ∨ binade * (d * 2 ^ shift) ≤ n * unitsPerOne) := by
  have hrank : nearestRank n d = ((n * unitsPerOne / d).log2 - 52) * binade +
      divideToEven (n * unitsPerOne) (d * 2 ^ ((n * unitsPerOne / d).log2 - 52)) := by
    simp only [nearestRank, Nat.shiftLeft_eq]
  have hbinade : binade = 2 ^ 52 := by decide
  generalize n * unitsPerOne = scaled at hrank
  generalize hlog : (scaled / d).log2 = log at hrank
  refine ⟨log - 52, hrank, ?_, ?_⟩
  · have hlt : scaled / d < 2 ^ (log + 1) := hlog ▸ Nat.lt_log2_self
    have hpow : 2 ^ (log + 1) ≤ 2 ^ (53 + (log - 52)) := Nat.pow_le_pow_right (by decide) (by omega)
    calc scaled < 2 ^ (log + 1) * d := (Nat.div_lt_iff_lt_mul hd).1 hlt
      _ ≤ 2 ^ (53 + (log - 52)) * d := Nat.mul_le_mul_right d hpow
      _ = 2 * binade * (d * 2 ^ (log - 52)) := by rw [hbinade, Nat.pow_add]; ring
  · rcases Nat.le_total log 52 with hle | hge
    · exact .inl (Nat.sub_eq_zero_of_le hle)
    · right
      have hne : scaled / d ≠ 0 := by
        intro h
        rw [h, Nat.log2_zero] at hlog
        omega
      calc binade * (d * 2 ^ (log - 52)) = 2 ^ (52 + (log - 52)) * d := by rw [hbinade, Nat.pow_add]; ring
        _ = 2 ^ log * d := by rw [Nat.add_sub_cancel' hge]
        _ ≤ scaled := (Nat.le_div_iff_mul_le hd).1 (hlog ▸ Nat.log2_self_le hne)

/-- A magnitude that a quotient is rounded to, in steps of its binade: it lies at most half a step away from the quotient, and has an
even rank at exactly half a step. Above the first binade the quotient is no less than its first magnitude. -/
structure Rounded (scaled d rank shift significand : Nat) : Prop where
  rank_eq : rank = shift * binade + significand
  le : significand ≤ 2 * binade
  ge : shift = 0 ∨ binade ≤ significand
  above : 2 * scaled ≤ 2 * (units rank * d) + d * 2 ^ shift
  below : 2 * (units rank * d) ≤ 2 * scaled + d * 2 ^ shift
  even : 2 * scaled = 2 * (units rank * d) + d * 2 ^ shift ∨ 2 * (units rank * d) = 2 * scaled + d * 2 ^ shift → rank % 2 = 0
  full : shift = 0 ∨ binade * (d * 2 ^ shift) ≤ scaled

/-- The nearest rank is that of a magnitude that the quotient is rounded to. -/
theorem rounded_nearestRank (n : Nat) {d : Nat} (hd : 0 < d) :
    ∃ shift significand, Rounded (n * unitsPerOne) d (nearestRank n d) shift significand := by
  obtain ⟨shift, hrank, hlt, hfull⟩ := nearestRank_eq n hd
  have hstep : 0 < d * 2 ^ shift := Nat.mul_pos hd (Nat.two_pow_pos shift)
  obtain ⟨habove, hbelow, heven⟩ := divideToEven_spec (n * unitsPerOne) hstep
  refine ⟨shift, divideToEven (n * unitsPerOne) (d * 2 ^ shift), ?_⟩
  generalize divideToEven (n * unitsPerOne) (d * 2 ^ shift) = significand at *
  generalize n * unitsPerOne = scaled at *
  have hle : significand ≤ 2 * binade := by
    by_contra h
    have hmul : (2 * binade + 1) * (d * 2 ^ shift) ≤ significand * (d * 2 ^ shift) := Nat.mul_le_mul_right _ (by omega)
    rw [Nat.add_one_mul] at hmul
    omega
  have hge : shift = 0 ∨ binade ≤ significand := by
    refine hfull.imp_right fun hfull => ?_
    by_contra h
    have hmul : (significand + 1) * (d * 2 ^ shift) ≤ binade * (d * 2 ^ shift) := Nat.mul_le_mul_right _ (by omega)
    rw [Nat.add_one_mul] at hmul
    omega
  have hunits : units (nearestRank n d) * d = significand * (d * 2 ^ shift) := by
    rw [hrank, units_of_significand hle hge]
    ring
  refine ⟨hrank, hle, hge, hunits ▸ habove, hunits ▸ hbelow, ?_, hfull⟩
  rw [hunits]
  intro h
  have hsignificand := heven h
  rw [hrank]
  unfold binade
  omega

namespace Rounded

variable {scaled d rank shift significand other : Nat}

/-- A higher rank lies at least a step above. -/
theorem step_above (h : Rounded scaled d rank shift significand) (hlt : rank < other) :
    units rank * d + d * 2 ^ shift ≤ units other * d := by
  have hsucc : units rank + 2 ^ shift ≤ units (rank + 1) := by
    rw [h.rank_eq]
    rcases Nat.lt_or_eq_of_le h.le with hsignificand | rfl
    · exact (units_succ hsignificand h.ge).ge
    · have hnext : shift * binade + 2 * binade = (shift + 1) * binade + binade := by ring
      rw [hnext, units_succ (by decide) (.inr (Nat.le_refl binade)), Nat.pow_succ]
      omega
  calc units rank * d + d * 2 ^ shift = (units rank + 2 ^ shift) * d := by ring
    _ ≤ units other * d := Nat.mul_le_mul_right d (hsucc.trans (units_strictMono.monotone hlt))

/-- A lower rank lies at least a step below, except that steps are shorter below the first magnitude of a binade. There the
quotient is no less than that magnitude. -/
theorem step_below (h : Rounded scaled d rank shift significand) (hd : 0 < d) (hlt : other < rank) :
    units other * d + d * 2 ^ shift ≤ units rank * d ∨ units other * d < units rank * d ∧ units rank * d ≤ scaled := by
  rcases Nat.eq_or_lt_of_le (Nat.zero_le significand) with rfl | hpos
  · -- Zero is the lowest rank.
    have hrank := h.rank_eq
    have hge := h.ge
    unfold binade at *
    omega
  · by_cases hfirst : shift = 0 ∨ binade ≤ significand - 1
    · left
      have hsignificand : significand - 1 < 2 * binade := by
        have hle := h.le
        omega
      have hrank : rank = shift * binade + (significand - 1) + 1 := by
        rw [h.rank_eq]
        omega
      have hother : units other ≤ units (shift * binade + (significand - 1)) := units_strictMono.monotone (by omega)
      calc units other * d + d * 2 ^ shift = (units other + 2 ^ shift) * d := by ring
        _ ≤ units rank * d := by
          rw [hrank, units_succ hsignificand hfirst]
          exact Nat.mul_le_mul_right d (Nat.add_le_add_right hother _)
    · right
      rw [not_or] at hfirst
      have hsignificand : significand = binade := by
        have hge := h.ge.resolve_left hfirst.1
        omega
      refine ⟨Nat.mul_lt_mul_of_pos_right (units_strictMono hlt) hd, ?_⟩
      calc units rank * d = binade * (d * 2 ^ shift) := by
            rw [h.rank_eq, units_of_significand h.le h.ge, hsignificand]
            ring
        _ ≤ scaled := h.full.resolve_left hfirst.1

/-- No magnitude is nearer than the one that is rounded to, and that has an even rank if another one is as near. -/
theorem nearest (h : Rounded scaled d rank shift significand) (hd : 0 < d) (other : Nat) :
    ((scaled : ℤ) - (units rank * d : ℕ)).natAbs ≤ ((scaled : ℤ) - (units other * d : ℕ)).natAbs ∧
      (((scaled : ℤ) - (units rank * d : ℕ)).natAbs = ((scaled : ℤ) - (units other * d : ℕ)).natAbs →
        other = rank ∨ rank % 2 = 0) := by
  have habove := h.above
  have hbelow := h.below
  have heven := h.even
  rcases Nat.lt_trichotomy other rank with hlt | rfl | hlt
  · have hstep := h.step_below hd hlt
    omega
  · omega
  · have hstep := h.step_above hlt
    omega

/-- Above the first binade the error of rounding is a small part of the quotient. -/
theorem error_lt (h : Rounded scaled d rank shift significand) (hd : 0 < d) (hshift : shift ≠ 0) :
    2 * binade * ((scaled : ℤ) - (units rank * d : ℕ)).natAbs < scaled := by
  have hstep : 0 < d * 2 ^ shift := Nat.mul_pos hd (Nat.two_pow_pos shift)
  have hunits : units rank * d = significand * (d * 2 ^ shift) := by
    rw [h.rank_eq, units_of_significand h.le h.ge]
    ring
  have hfull := h.full.resolve_left hshift
  have habove := h.above
  have hbelow := h.below
  rw [hunits] at habove hbelow ⊢
  generalize d * 2 ^ shift = step at *
  -- At exactly that part the quotient would be the first magnitude of the binade, and there is no error.
  rcases Nat.lt_or_ge binade significand with hlt | hle
  · have hmul : (binade + 1) * step ≤ significand * step := Nat.mul_le_mul_right step hlt
    unfold binade at *
    omega
  · have heq : significand = binade := Nat.le_antisymm hle (h.ge.resolve_left hshift)
    rw [heq] at habove hbelow ⊢
    unfold binade at *
    omega

/-- The integer part of a quotient is not rounded below if it is a magnitude itself. -/
theorem le_units {n one : Nat} (h : Rounded (n * one) d rank shift significand) (hd : 0 < d)
    (hother : units other = n / d * one) : n / d * one ≤ units rank := by
  by_contra hlt
  have hnearest := (h.nearest hd other).1
  have hless : units rank * d < units other * d := Nat.mul_lt_mul_of_pos_right (by omega) hd
  have hle : units other * d ≤ n * one := by
    calc units other * d = n / d * d * one := by rw [hother]; ring
      _ ≤ n * one := Nat.mul_le_mul_right _ (Nat.div_mul_le_self n d)
  omega

/-- A quotient that is far enough below the next integer for its size is not rounded up to that. -/
theorem units_lt {n one : Nat} (h : Rounded (n * one) d rank shift significand) (hd : 0 < d) (hone : 2 * binade < one)
    (hfar : n ≤ 2 * binade * (d - n % d)) : units rank < (n / d + 1) * one := by
  by_contra hge
  rw [Nat.not_lt] at hge
  by_cases hshift : shift = 0
  · have hunits : units rank = significand := by
      rw [h.rank_eq, units_of_significand h.le h.ge, hshift, Nat.pow_zero, Nat.mul_one]
    have hmul : one ≤ (n / d + 1) * one := Nat.le_mul_of_pos_left _ (Nat.succ_pos _)
    exact absurd (hunits ▸ h.le) (Nat.not_le.2 (hone.trans_le (hmul.trans hge)))
  · -- The error would be at least the distance from the quotient to the next integer.
    have hnext : n * one + (d - n % d) * one ≤ units rank * d := by
      calc n * one + (d - n % d) * one = (n / d + 1) * d * one := by rw [← Nat.add_mul, add_distance n hd]
        _ = (n / d + 1) * one * d := by ring
        _ ≤ units rank * d := Nat.mul_le_mul_right d hge
    have herror : (d - n % d) * one ≤ ((n * one : ℕ) - (units rank * d : ℕ) : ℤ).natAbs := le_natAbs_sub hnext
    refine Nat.lt_irrefl (n * one) ?_
    calc n * one ≤ 2 * binade * (d - n % d) * one := Nat.mul_le_mul_right _ hfar
      _ = 2 * binade * ((d - n % d) * one) := Nat.mul_assoc _ _ _
      _ ≤ 2 * binade * ((n * one : ℕ) - (units rank * d : ℕ) : ℤ).natAbs := Nat.mul_le_mul_left _ herror
      _ < n * one := h.error_lt hd hshift

/-- A quotient is rounded to at most an odd rank exactly if it lies below the number halfway to the next rank. -/
theorem le_odd_iff {last bound : Nat} (h : Rounded scaled d rank shift significand) (hd : 0 < d) (hodd : last % 2 = 1)
    (hbound : units last * d + units (last + 1) * d = 2 * bound) : rank ≤ last ↔ scaled < bound := by
  obtain ⟨hlast, -⟩ := h.nearest hd last
  obtain ⟨hnext, htie⟩ := h.nearest hd (last + 1)
  have hgrow : units last * d < units (last + 1) * d := Nat.mul_lt_mul_of_pos_right (units_strictMono (Nat.lt_succ_self _)) hd
  constructor
  · intro hle
    rcases Nat.eq_or_lt_of_le hle with rfl | hlt
    · omega
    · have hrank : units rank * d < units last * d := Nat.mul_lt_mul_of_pos_right (units_strictMono hlt) hd
      omega
  · intro hscaled
    by_contra hgt
    rw [Nat.not_le] at hgt
    have hrank : units (last + 1) * d ≤ units rank * d := Nat.mul_le_mul_right d (units_strictMono.monotone hgt)
    omega

end Rounded

/-! ## Integers among the magnitudes -/

/-- One is a power of two of units. The exponent has a name, as the power is too large to be found. -/
theorem exists_unitsPerOne_eq : ∃ e, e = 1074 ∧ unitsPerOne = 2 ^ e := by
  obtain ⟨e, he⟩ : ∃ e, e = 1074 := ⟨_, rfl⟩
  exact ⟨e, he, by rw [unitsPerOne, ← he, Nat.one_shiftLeft]⟩

/-- A multiple of a power of two is a magnitude, if it is a small enough one for a significand. By induction on the power: where the
significand is not full, twice of it counts multiples of the power below. -/
theorem exists_units_eq_mul_two_pow {m : ℕ} (hm : m ≤ 2 * binade) (k : ℕ) : ∃ rank, units rank = m * 2 ^ k := by
  induction k generalizing m with
  | zero => exact ⟨0 * binade + m, units_of_significand hm (.inl rfl)⟩
  | succ k ih =>
    by_cases hfull : binade ≤ m
    · exact ⟨(k + 1) * binade + m, units_of_significand hm (.inr hfull)⟩
    · obtain ⟨rank, hrank⟩ := ih (m := 2 * m) (by omega)
      exact ⟨rank, by rw [hrank, Nat.pow_succ, Nat.mul_comm 2 m, Nat.mul_assoc, Nat.mul_comm 2]⟩

theorem exists_units_eq {k : Nat} (hk : k ≤ 2 * binade) : ∃ rank, units rank = k * unitsPerOne := by
  obtain ⟨e, -, hone⟩ := exists_unitsPerOne_eq
  rw [hone]
  exact exists_units_eq_mul_two_pow hk e

/-- There are more units in one than in every significand. -/
theorem lt_unitsPerOne : 2 * binade < unitsPerOne := by
  obtain ⟨e, he, hone⟩ := exists_unitsPerOne_eq
  calc 2 * binade < 2 ^ 54 := by decide
    _ ≤ 2 ^ e := Nat.pow_le_pow_right (by decide) (by omega)
    _ = unitsPerOne := hone.symm

theorem unitsPerOne_pos : 0 < unitsPerOne := Nat.zero_lt_of_lt lt_unitsPerOne

theorem unitsPerOne_cast_pos : (0 : ℚ) < unitsPerOne := Nat.cast_pos.2 unitsPerOne_pos

theorem unitsPerOne_cast_ne_zero : (unitsPerOne : ℚ) ≠ 0 := unitsPerOne_cast_pos.ne'

/-- A quotient that is far enough below the next integer for its size is rounded to no less than its integer part, and to less than
the next integer. -/
theorem integerPart_nearestRank {n d : Nat} (hd : 0 < d) (hfar : n ≤ 2 * binade * (d - n % d)) :
    n / d * unitsPerOne ≤ units (nearestRank n d) ∧ units (nearestRank n d) < (n / d + 1) * unitsPerOne := by
  obtain ⟨shift, significand, h⟩ := rounded_nearestRank n hd
  have hk : n / d ≤ 2 * binade := by
    refine Nat.le_of_mul_le_mul_right ?_ hd
    calc n / d * d ≤ n := Nat.div_mul_le_self n d
      _ ≤ 2 * binade * (d - n % d) := hfar
      _ ≤ 2 * binade * d := Nat.mul_le_mul_left _ (Nat.sub_le d _)
  obtain ⟨other, hother⟩ := exists_units_eq hk
  exact ⟨h.le_units hd hother, h.units_lt hd lt_unitsPerOne hfar⟩

/-! ## The largest magnitudes -/

/-- The least magnitude that is rounded to an infinity, halfway from the last finite magnitude to the next power of two. -/
def overflowBound : Nat := 2 ^ 1024 - 2 ^ 970

/-- The bound lies halfway between the last rank and the next one. -/
theorem units_rankCount : units (rankCount - 1) + units (rankCount - 1 + 1) = 2 * (overflowBound * unitsPerOne) := by
  decide +kernel

/-- A quotient is rounded to a finite magnitude exactly if it is below the bound. -/
theorem nearestRank_lt_iff (n : Nat) {d : Nat} (hd : 0 < d) : nearestRank n d < rankCount ↔ n < overflowBound * d := by
  obtain ⟨shift, significand, h⟩ := rounded_nearestRank n hd
  have hbound : units (rankCount - 1) * d + units (rankCount - 1 + 1) * d = 2 * (overflowBound * d * unitsPerOne) := by
    rw [← Nat.add_mul, units_rankCount]
    ring
  have hone := unitsPerOne_pos
  calc nearestRank n d < rankCount ↔ nearestRank n d ≤ rankCount - 1 := Nat.lt_iff_le_pred (by decide)
    _ ↔ n * unitsPerOne < overflowBound * d * unitsPerOne := h.le_odd_iff hd (by decide) hbound
    _ ↔ n < overflowBound * d := Nat.mul_lt_mul_right hone

/-! ## The nearest number -/

/-- Whether the significand of a finite number is even. -/
def isEven : Binary64 → Bool
  | finite _ rank => rank.val % 2 = 0
  | _ => false

/-- A finite number, of a value, is the one nearest to a rational number: no other one is nearer, and where another one is as near,
its significand is even. -/
structure IsNearest (x : Binary64) (value q : ℚ) : Prop where
  toRat?_eq : x.toRat? = some value
  le : ∀ y w, toRat? y = some w → |q - value| ≤ |q - w|
  even : ∀ y w, toRat? y = some w → |q - value| = |q - w| → w = value ∨ x.isEven = true

theorem signed_not (negative : Bool) (magnitude : Nat) : signed (!negative) magnitude = -signed negative magnitude := by
  cases negative <;> simp [signed]

/-- The value of a number of opposite sign is that of opposite sign. -/
theorem toRat?_neg (x : Binary64) : x.neg.toRat? = x.toRat?.map (- ·) := by
  cases x with
  | nan | infinite => rfl
  | finite negative rank =>
    simp only [neg, toRat?, toUnits?, signed_not, Option.map_some, Int.cast_neg, neg_div]

/-- The magnitude of a finite number is that of its rank. -/
theorem exists_abs_eq {x : Binary64} {v : ℚ} (h : x.toRat? = some v) : ∃ rank, |v| = (units rank : ℚ) / unitsPerOne := by
  obtain ⟨u, hu, rfl⟩ := Option.map_eq_some_iff.1 h
  cases x with
  | nan | infinite => cases hu
  | finite negative rank =>
    cases hu
    refine ⟨rank, ?_⟩
    rw [abs_div, Nat.abs_cast]
    cases negative <;> simp [signed]

/-- What is nearest to a number has its opposite nearest to the opposite of that. -/
theorem IsNearest.neg {x : Binary64} {v q : ℚ} (h : IsNearest x v q) : IsNearest x.neg (-v) (-q) := by
  have hvalue : ∀ y w, toRat? y = some w → y.neg.toRat? = some (-w) := by
    intro y w hy
    rw [toRat?_neg, hy]
    rfl
  have hdistance : ∀ w, |-q - w| = |q - -w| := by
    intro w
    rw [← abs_neg]
    ring_nf
  refine ⟨hvalue x v h.toRat?_eq, ?_, ?_⟩
  · intro y w hy
    rw [hdistance, hdistance, neg_neg]
    exact h.le y.neg (-w) (hvalue y w hy)
  · intro y w hy heq
    rw [hdistance, hdistance, neg_neg] at heq
    rcases h.even y.neg (-w) (hvalue y w hy) heq with hw | heven
    · exact .inl (neg_eq_iff_eq_neg.1 hw)
    · right
      cases x <;> exact heven

theorem toRat?_zero : (finite false ⟨0, by decide⟩).toRat? = some 0 := by
  simp [toRat?, toUnits?, signed, units]

theorem IsNearest.mul_nonneg {x : Binary64} {v q : ℚ} (h : IsNearest x v q) : 0 ≤ q * v := by
  have hle : |q - v| ≤ |q - 0| := h.le _ _ toRat?_zero
  rw [sub_zero, ← sq_le_sq] at hle
  nlinarith [sq_nonneg v]

/-- The nearest number is a finite one. -/
theorem IsNearest.isFinite {x : Binary64} {v q : ℚ} (h : IsNearest x v q) : x.isFinite = true := by
  have hvalue := h.toRat?_eq
  cases x with
  | nan | infinite => cases hvalue
  | finite => rfl

/-- The distance of a quotient from a magnitude. -/
theorem abs_sub_units (n rank : Nat) {d : Nat} (hd : 0 < d) : |(n : ℚ) / d - (units rank : ℚ) / unitsPerOne| =
    (((n * unitsPerOne : ℕ) - (units rank * d : ℕ) : ℤ).natAbs : ℚ) / (d * unitsPerOne : ℕ) := by
  have hone := unitsPerOne_cast_ne_zero
  have hd : (d : ℚ) ≠ 0 := Nat.cast_ne_zero.2 hd.ne'
  have hscale : |(d : ℚ) * unitsPerOne| = (d * unitsPerOne : ℕ) := by rw [← Nat.cast_mul, Nat.abs_cast]
  rw [div_sub_div _ _ hd hone, abs_div, hscale, Nat.cast_natAbs]
  push_cast
  rw [mul_comm (d : ℚ) (units rank : ℚ)]

/-- The rank nearest to a quotient is that of the positive number nearest to it. -/
theorem isNearest_nearestRank {n d : Nat} (hd : 0 < d) (hlt : nearestRank n d < rankCount) :
    IsNearest (finite false ⟨nearestRank n d, hlt⟩) ((units (nearestRank n d) : ℚ) / unitsPerOne) ((n : ℚ) / d) := by
  obtain ⟨shift, significand, h⟩ := rounded_nearestRank n hd
  have hvalue : (finite false ⟨nearestRank n d, hlt⟩).toRat? = some ((units (nearestRank n d) : ℚ) / unitsPerOne) := by
    simp [toRat?, toUnits?, signed]
  generalize nearestRank n d = rank at *
  have hq : (0 : ℚ) ≤ n / d := div_nonneg n.cast_nonneg d.cast_nonneg
  have hv : (0 : ℚ) ≤ units rank / unitsPerOne := div_nonneg (Nat.cast_nonneg _) (Nat.cast_nonneg _)
  have hscale : (0 : ℚ) < (d * unitsPerOne : ℕ) := Nat.cast_pos.2 (Nat.mul_pos hd unitsPerOne_pos)
  -- A number on the other side of zero is no nearer than its magnitude.
  have hside (w : ℚ) : |(n : ℚ) / d - (|w|)| ≤ |(n : ℚ) / d - w| := by
    have habs := abs_abs_sub_abs_le ((n : ℚ) / d) w
    rwa [abs_of_nonneg hq] at habs
  have hmagnitude (y : Binary64) (w : ℚ) (hy : y.toRat? = some w) :
      |(n : ℚ) / d - units rank / unitsPerOne| ≤ |(n : ℚ) / d - (|w|)| ∧
        (|(n : ℚ) / d - units rank / unitsPerOne| = |(n : ℚ) / d - (|w|)| →
          |w| = units rank / unitsPerOne ∨ rank % 2 = 0) := by
    obtain ⟨other, hother⟩ := exists_abs_eq hy
    obtain ⟨hle, htie⟩ := h.nearest hd other
    rw [hother, abs_sub_units n rank hd, abs_sub_units n other hd, div_le_div_iff_of_pos_right hscale, div_left_inj' hscale.ne',
      Nat.cast_le, Nat.cast_inj]
    exact ⟨hle, fun heq => (htie heq).imp_left (congrArg fun r => (units r : ℚ) / unitsPerOne)⟩
  have hle (y : Binary64) (w : ℚ) (hy : y.toRat? = some w) := (hmagnitude y w hy).1.trans (hside w)
  refine ⟨hvalue, hle, fun y w hy heq => ?_⟩
  have heq' := ((hmagnitude y w hy).1.antisymm (heq ▸ hside w))
  rcases (hmagnitude y w hy).2 heq' with hw | heven
  · rcases (abs_eq hv).1 hw with hw | hw
    · exact .inl hw
    · -- Zero would be nearer, unless both are zero.
      left
      have hfar := hle _ _ toRat?_zero
      rw [heq, hw, sub_neg_eq_add, sub_zero, abs_of_nonneg (add_nonneg hq hv), abs_of_nonneg hq] at hfar
      rw [hw]
      linarith
  · right
    simpa [isEven] using heven

/-- A quotient below the bound is rounded to the number nearest to it. -/
theorem isNearest_ofRatio (negative : Bool) {n d : Nat} (hd : 0 < d) (hlt : n < overflowBound * d) :
    IsNearest (ofRatio negative n d) ((signed negative (units (nearestRank n d)) : ℚ) / unitsPerOne)
      ((signed negative n : ℚ) / d) := by
  have hrank : nearestRank n d < rankCount := (nearestRank_lt_iff n hd).2 hlt
  have hnearest := isNearest_nearestRank hd hrank
  rw [ofRatio, ofRank, dif_pos hrank]
  cases negative with
  | false => simpa [signed] using hnearest
  | true => simpa [signed, neg_div, neg] using hnearest.neg

/-- A quotient from the bound on is rounded to an infinity. -/
theorem ofRatio_infinite (negative : Bool) {n d : Nat} (hd : 0 < d) (hge : overflowBound * d ≤ n) :
    ofRatio negative n d = infinite negative := by
  rw [ofRatio, ofRank, dif_neg]
  rw [nearestRank_lt_iff n hd]
  exact Nat.not_lt.2 hge

end Stencil.Binary64
