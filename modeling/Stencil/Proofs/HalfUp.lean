import Stencil.Proofs.Codec
import Stencil.Proofs.Rounding

/-!
# Rounding half up

A number is rounded to the floor of its binary64 sum with one half. Between the number and the floor stands one rounding, that of the
sum, and for an integer one more before it. This module says which numbers these roundings pass.

Counts of units carry the argument. A sum of two magnitudes is a count of units, and the magnitude nearest to it lies on the same
side of every magnitude as the count itself (`nearest_units`). Below 2⁵² every integer is a magnitude and so is every half between
two of them, so that no integer is passed by the sum of a number with one half (`floorUnits_half_add`, `floorUnits_half_sub`), with
one exception: the sum of one half and the last number below it is halfway between two magnitudes, and the even one is one. From 2⁵²
on every magnitude is an integer, and one half more is a tie again, which goes to the even neighbour (`floorUnits_half_of_le`). What
`RoundsPast` says of the value is thus what the ties do.

An integer comes first to the binary64 number nearest to it (`Number.round_int_of_lt`). What is given back is the same integer if it
is at most 2⁵², and from there on if it is even and a value of binary64 (`Number.round_int_iff`).
-/

namespace Stencil.Binary64

/-! ## One half in units -/

/-- How many units make one half. -/
def unitsPerHalf : ℕ := 1 <<< 1073

/-- One half and one are powers of two of units. The exponent has a name, as the powers are too large to be found. -/
theorem exists_unitsPerHalf_eq : ∃ e, e = 1073 ∧ unitsPerHalf = 2 ^ e ∧ unitsPerOne = 2 ^ (e + 1) := by
  obtain ⟨e, he⟩ : ∃ e, e = 1073 := ⟨_, rfl⟩
  obtain ⟨e', he', hone⟩ := exists_unitsPerOne_eq
  have hsucc : e' = e + 1 := by omega
  exact ⟨e, he, by rw [unitsPerHalf, ← he, Nat.one_shiftLeft], hsucc ▸ hone⟩

theorem unitsPerOne_eq_two_mul : unitsPerOne = 2 * unitsPerHalf := by
  obtain ⟨e, -, hhalf, hone⟩ := exists_unitsPerHalf_eq
  rw [hhalf, hone, Nat.pow_succ']

theorem unitsPerHalf_pos : 0 < unitsPerHalf := by
  obtain ⟨e, -, hhalf, -⟩ := exists_unitsPerHalf_eq
  exact hhalf ▸ Nat.two_pow_pos e

/-- The rank of one half. -/
abbrev halfRank : ℕ := 1022 * binade

theorem half_eq : half = finite false ⟨halfRank, by decide⟩ := by decide +kernel

theorem units_halfRank : units halfRank = unitsPerHalf := by decide +kernel

/-- One half more than the largest finite magnitude is not rounded to an infinity. -/
theorem units_add_unitsPerHalf_lt : units (rankCount - 1) + unitsPerHalf < overflowBound * unitsPerOne := by decide +kernel

/-! ## Counts of units that are rounded -/

/-- A count of units is rounded to the nearest magnitude, and to an even rank if another one is as near. -/
theorem nearest_units (t other : ℕ) :
    ((t : ℤ) - units (nearestRank t unitsPerOne)).natAbs ≤ ((t : ℤ) - units other).natAbs ∧
      (((t : ℤ) - units (nearestRank t unitsPerOne)).natAbs = ((t : ℤ) - units other).natAbs →
        other = nearestRank t unitsPerOne ∨ nearestRank t unitsPerOne % 2 = 0) := by
  have hone := unitsPerOne_pos
  obtain ⟨shift, significand, h⟩ := rounded_nearestRank t hone
  obtain ⟨hle, htie⟩ := h.nearest hone other
  have hscale (rank : ℕ) : (((t * unitsPerOne : ℕ) : ℤ) - (units rank * unitsPerOne : ℕ)).natAbs =
      ((t : ℤ) - units rank).natAbs * unitsPerOne := by
    rw [Nat.cast_mul, Nat.cast_mul, ← Int.sub_mul, Int.natAbs_mul, Int.natAbs_natCast]
  rw [hscale, hscale] at hle htie
  exact ⟨Nat.le_of_mul_le_mul_right hle hone, fun heq => htie (congrArg (· * unitsPerOne) heq)⟩

/-- The finite number nearest to a count of units, counted in units. -/
def nearestUnits (t : ℤ) : ℤ := signed (t < 0) (units (nearestRank t.natAbs unitsPerOne))

/-- A count of units that is not negative is rounded to the nearest magnitude. -/
theorem nearestUnits_natCast (t : ℕ) : nearestUnits t = units (nearestRank t unitsPerOne) := by
  rw [nearestUnits, signed, if_neg (by simp), Int.natAbs_natCast]

theorem nearestUnits_neg {t : ℕ} (h : 0 < t) : nearestUnits (-t) = -units (nearestRank t unitsPerOne) := by
  rw [nearestUnits, signed, if_pos (by simpa using h), Int.natAbs_neg, Int.natAbs_natCast]

theorem nearestUnits_of_units {t : ℤ} {rank : ℕ} (h : units rank = t.natAbs) : nearestUnits t = t := by
  have hnearest := (nearest_units t.natAbs rank).1
  rw [nearestUnits, signed]
  split <;> rename_i hsign <;> rw [decide_eq_true_eq] at hsign <;> omega

/-- What is not below zero is rounded to nothing below or above magnitudes that it lies between. -/
theorem nearestUnits_of_between {t : ℤ} {low high : ℕ} (hlow : units low ≤ t) (hhigh : t ≤ units high) :
    units low ≤ nearestUnits t ∧ nearestUnits t ≤ units high := by
  have hbelow := (nearest_units t.natAbs low).1
  have habove := (nearest_units t.natAbs high).1
  rw [nearestUnits, signed, if_neg (by simp; omega)]
  omega

/-- The floor of what lies between an integer and the next one is the integer. -/
theorem floorUnits_eq {t n : ℤ} (hle : n * unitsPerOne ≤ t) (hlt : t < n * unitsPerOne + unitsPerOne) : floorUnits t = n := by
  have hone : (0 : ℤ) < unitsPerOne := by omega
  refine Int.le_antisymm (Int.lt_add_one_iff.1 (Int.ediv_lt_of_lt_mul hone ?_)) ((Int.le_ediv_iff_mul_le hone).2 hle)
  rwa [Int.add_mul, Int.one_mul]

/-- What lies between magnitudes that themselves lie between an integer and the next one has its floor kept by rounding. -/
theorem floorUnits_of_between (n : ℤ) (low high : ℕ) {t : ℤ} (hlow : units low ≤ t) (hhigh : t ≤ units high)
    (hle : n * unitsPerOne ≤ units low) (hlt : units high < n * unitsPerOne + unitsPerOne) :
    floorUnits (nearestUnits t) = floorUnits t := by
  obtain ⟨hbelow, habove⟩ := nearestUnits_of_between hlow hhigh
  rw [floorUnits_eq (hle.trans hbelow) (habove.trans_lt hlt), floorUnits_eq (hle.trans hlow) (hhigh.trans_lt hlt)]

/-! ## Sums -/

/-- The sum of two finite numbers is the finite number nearest to it, unless that is an infinity. -/
theorem toUnits?_add {x y : Binary64} {u v : ℤ} (hx : x.toUnits? = some u) (hy : y.toUnits? = some v)
    (hlt : (u + v).natAbs < overflowBound * unitsPerOne) : (x.add y).toUnits? = some (nearestUnits (u + v)) := by
  cases x with
  | nan | infinite => cases hx
  | finite a r =>
    cases y with
    | nan | infinite => cases hy
    | finite b s =>
      cases hx
      cases hy
      simp only [add]
      generalize signed a (units r) + signed b (units s) = total at *
      split
      · rename_i hzero
        have hunits : units 0 = (0 : ℤ).natAbs := rfl
        rw [hzero, nearestUnits_of_units hunits]
        cases a <;> cases b <;> rfl
      · have hrank : nearestRank total.natAbs unitsPerOne < rankCount :=
          (nearestRank_lt_iff _ unitsPerOne_pos).2 hlt
        rw [ofRatio, ofRank, dif_pos hrank]
        rfl

/-- The magnitude of a finite number is at most the last one. -/
theorem natAbs_le_of_toUnits? {x : Binary64} {u : ℤ} (h : x.toUnits? = some u) : u.natAbs ≤ units (rankCount - 1) := by
  cases x with
  | nan | infinite => cases h
  | finite negative rank =>
    cases h
    have hle : units rank ≤ units (rankCount - 1) := units_strictMono.monotone (Nat.le_pred_of_lt rank.isLt)
    cases negative <;> simpa [signed] using hle

theorem toUnits?_half : half.toUnits? = some (unitsPerHalf : ℤ) := by
  rw [half_eq, ← units_halfRank]
  rfl

/-! ## Half up below 2⁵² -/

/-- A count of units that is a small multiple of a power of two is rounded to itself. -/
theorem nearestUnits_of_multiple {t : ℤ} {m k : ℕ} (hm : m ≤ 2 * binade) (ht : t.natAbs = m * 2 ^ k) : nearestUnits t = t := by
  obtain ⟨rank, hrank⟩ := exists_units_eq_mul_two_pow hm k
  exact nearestUnits_of_units (hrank.trans ht.symm)

/-- The magnitudes below 2⁵² are small multiples of a power of two that one half is a multiple of, too. -/
theorem exists_multiple_of_lt {rank : ℕ} (h : units rank < binade * unitsPerOne) :
    ∃ s k j, s < 2 * binade ∧ units rank = s * 2 ^ k ∧ unitsPerHalf = 2 ^ j * 2 ^ k := by
  obtain ⟨e, -, hhalf, hone⟩ := exists_unitsPerHalf_eq
  obtain ⟨k, s, rfl, hs, hge⟩ := exists_significand rank
  rw [units_of_significand hs.le hge] at h ⊢
  have hk : k ≤ e := by
    by_contra hlt
    have hfull : binade ≤ s := hge.resolve_left (by omega)
    have hpow : 2 ^ (e + 1) ≤ 2 ^ k := Nat.pow_le_pow_right (by decide) (Nat.not_le.1 hlt)
    exact Nat.not_le.2 h (hone ▸ Nat.mul_le_mul hfull hpow)
  exact ⟨s, k, e - k, hs, rfl, by rw [hhalf, ← Nat.pow_add, Nat.sub_add_cancel hk]⟩

/-- One half less a magnitude below 2⁵² has its floor kept by rounding. -/
theorem floorUnits_half_sub {rank : ℕ} (h : units rank < binade * unitsPerOne) :
    floorUnits (nearestUnits (-units rank + unitsPerHalf)) = floorUnits (-units rank + unitsPerHalf) := by
  have hone := unitsPerOne_eq_two_mul
  have hpos := unitsPerHalf_pos
  rcases Nat.le_total (units rank) unitsPerHalf with hle | hge
  · -- The difference lies between zero and one half.
    have hzero : units 0 = 0 := rfl
    have hhalf := units_halfRank
    generalize halfRank = halfRank at hhalf
    refine floorUnits_of_between 0 0 halfRank ?_ ?_ ?_ ?_ <;> omega
  · obtain ⟨s, k, j, hs, hunits, hhalf⟩ := exists_multiple_of_lt h
    have habs : (-units rank + unitsPerHalf : ℤ).natAbs = (s - 2 ^ j) * 2 ^ k := by
      rw [Nat.sub_mul, ← hunits, ← hhalf]
      omega
    rw [nearestUnits_of_multiple ((Nat.sub_le _ _).trans hs.le) habs]

/-- Two magnitudes below one half, and one half more, comes the last magnitude below one. -/
theorem units_lastBelowOne : units (halfRank - 2) + unitsPerHalf ≤ units (1023 * binade - 1) ∧
    units (1023 * binade - 1) < unitsPerOne := by
  decide +kernel

/-- One half more than a magnitude below 2⁵² has its floor kept by rounding, unless the magnitude is the last one below one half. -/
theorem floorUnits_half_add {rank : ℕ} (h : units rank < binade * unitsPerOne) (hne : rank + 1 ≠ halfRank) :
    floorUnits (nearestUnits (units rank + unitsPerHalf)) = floorUnits (units rank + unitsPerHalf) := by
  have hone := unitsPerOne_eq_two_mul
  obtain ⟨s, k, j, hs, hunits, hhalf⟩ := exists_multiple_of_lt h
  have habs : (units rank + unitsPerHalf : ℤ).natAbs = (s + 2 ^ j) * 2 ^ k := by
    rw [Nat.add_mul, ← hunits, ← hhalf]
    omega
  by_cases hexact : s + 2 ^ j ≤ 2 * binade
  · rw [nearestUnits_of_multiple hexact habs]
  rcases Nat.lt_or_ge (units rank) unitsPerHalf with hlt | hge
  · -- The sum lies below the last magnitude before one.
    obtain ⟨hlast, hlastOne⟩ := units_lastBelowOne
    have hrank : units rank ≤ units (halfRank - 2) := by
      rw [← units_halfRank, units_strictMono.lt_iff_lt] at hlt
      exact units_strictMono.monotone (Nat.le_sub_of_add_le (Nat.lt_of_le_of_ne hlt hne))
    have hzero : units 0 = 0 := rfl
    generalize 1023 * binade - 1 = last at hlast hlastOne
    generalize units (halfRank - 2) = below at hlast hrank
    refine floorUnits_of_between 0 0 last ?_ ?_ ?_ ?_ <;> omega
  · -- The sum lies between a power of two, which is an integer, and one half more.
    have hbinade : binade = 2 ^ 52 := by decide
    have hle : 2 ^ j ≤ s := by
      rw [hunits, hhalf] at hge
      exact Nat.le_of_mul_le_mul_right hge (Nat.two_pow_pos k)
    have hj : j < 53 := by
      have hfull : 2 * binade = 2 ^ 53 := by decide
      exact (Nat.pow_lt_pow_iff_right (by decide)).1 (hfull ▸ hle.trans_lt hs)
    obtain ⟨i, rfl⟩ : ∃ i, j = i + 1 := Nat.exists_eq_succ_of_ne_zero (by rintro rfl; omega)
    have hi : 2 ^ i ≤ binade := hbinade ▸ Nat.pow_le_pow_right (by decide) (by omega)
    obtain ⟨low, hlow⟩ := exists_units_eq_mul_two_pow (Nat.le_refl (2 * binade)) k
    obtain ⟨high, hhigh⟩ := exists_units_eq_mul_two_pow (m := binade + 2 ^ i) (by omega) (k + 1)
    have hsucc : units high = units low + unitsPerHalf := by
      rw [hhigh, hlow, hhalf]
      ring
    have hinteger : 2 ^ (51 - i) * unitsPerOne = units low := by
      have hpow : 2 ^ (51 - i) * 2 ^ i = 2 ^ 51 := by rw [← Nat.pow_add, Nat.sub_add_cancel (by omega)]
      calc 2 ^ (51 - i) * unitsPerOne = 2 ^ (51 - i) * 2 ^ i * 4 * 2 ^ k := by rw [hone, hhalf]; ring
        _ = units low := by rw [hpow, hlow, hbinade]; ring
    have hbelow : units low ≤ units rank + unitsPerHalf := by
      rw [hlow, hunits, hhalf, ← Nat.add_mul]
      exact Nat.mul_le_mul_right _ (by omega)
    have habove : units rank ≤ units low := by
      rw [hlow, hunits]
      exact Nat.mul_le_mul_right _ hs.le
    have hinteger : ((2 ^ (51 - i) : ℕ) : ℤ) * unitsPerOne = units low := by exact_mod_cast hinteger
    have hpos := unitsPerHalf_pos
    refine floorUnits_of_between ((2 ^ (51 - i) : ℕ) : ℤ) low high ?_ ?_ ?_ ?_ <;> omega

/-! ## Half up from 2⁵² on -/

/-- The magnitudes from 2⁵² on are integers, and the odd ones among them have odd ranks and lie below 2⁵³. -/
theorem exists_integer_of_le {rank : ℕ} (h : binade * unitsPerOne ≤ units rank) :
    ∃ n, units rank = n * unitsPerOne ∧ (n % 2 = 1 → rank % 2 = 1 ∧ n < 2 * binade) := by
  obtain ⟨e, -, hone⟩ := exists_unitsPerOne_eq
  obtain ⟨k, s, rfl, hs, hge⟩ := exists_significand rank
  rw [units_of_significand hs.le hge] at h ⊢
  obtain ⟨i, rfl⟩ : ∃ i, k = e + i := by
    refine Nat.exists_eq_add_of_le (Nat.not_lt.1 fun hlt => ?_)
    have hpow : 2 ^ (k + 1) ≤ 2 ^ e := Nat.pow_le_pow_right (by decide) hlt
    have hdouble : s * 2 ^ k < binade * 2 ^ (k + 1) := by
      calc s * 2 ^ k < 2 * binade * 2 ^ k := Nat.mul_lt_mul_of_pos_right hs (Nat.two_pow_pos k)
        _ = binade * 2 ^ (k + 1) := by ring
    exact Nat.not_lt.2 h (hone ▸ hdouble.trans_le (Nat.mul_le_mul_left _ hpow))
  refine ⟨s * 2 ^ i, by rw [hone, Nat.pow_add]; ring, fun hodd => ?_⟩
  cases i with
  | zero =>
    rw [Nat.pow_zero, Nat.mul_one] at hodd ⊢
    unfold binade at *
    omega
  | succ i =>
    rw [Nat.pow_succ, ← Nat.mul_assoc, Nat.mul_mod_left] at hodd
    cases hodd

/-- An integer and one half, between two multiples: it is as far from the one as from the other. -/
theorem halfway_distance {n m one half : ℕ} (hone : one = 2 * half) (hm : m = n ∨ m = n + 1) :
    (((n * one + half : ℕ) : ℤ) - (m * one : ℕ)).natAbs = half := by
  rcases hm with rfl | rfl
  · omega
  · rw [Nat.add_one_mul]
    omega

/-- What is no farther from an integer and one half than the next integers lies between them. -/
theorem between_of_distance_le {n one half found : ℕ} (hone : one = 2 * half)
    (h : (((n * one + half : ℕ) : ℤ) - found).natAbs ≤ half) : n * one ≤ found ∧ found ≤ (n + 1) * one := by
  rw [Nat.add_one_mul]
  omega

/-- Halfway between two integers from 2⁵² on, one of which is a magnitude, rounding goes to the even one. -/
theorem units_nearestRank_halfway {n m rank : ℕ} (hn : binade ≤ n) (hm : m = n ∨ m = n + 1)
    (hrank : units rank = m * unitsPerOne) :
    units (nearestRank (n * unitsPerOne + unitsPerHalf) unitsPerOne) = (n + n % 2) * unitsPerOne := by
  have hhalf := unitsPerOne_eq_two_mul
  have hone := unitsPerOne_pos
  have hnearest := nearest_units (n * unitsPerOne + unitsPerHalf)
  generalize nearestRank (n * unitsPerOne + unitsPerHalf) unitsPerOne = found at hnearest ⊢
  -- The magnitude that is found is one of the two integers.
  have hle := (hnearest rank).1
  rw [hrank, halfway_distance hhalf hm] at hle
  obtain ⟨hlow, hhigh⟩ := between_of_distance_le hhalf hle
  obtain ⟨k, hk, hodd⟩ := exists_integer_of_le ((Nat.mul_le_mul_right _ hn).trans hlow)
  rw [hk] at hlow hhigh ⊢
  have hnk : n ≤ k := Nat.le_of_mul_le_mul_right hlow hone
  have hkn : k ≤ n + 1 := Nat.le_of_mul_le_mul_right hhigh hone
  refine congrArg (· * unitsPerOne) (by_contra fun hne => ?_)
  -- The odd one has an odd rank, and the even one would be as near.
  obtain ⟨hrankOdd, hlt⟩ := hodd (by omega)
  obtain ⟨other, hother⟩ := exists_units_eq (k := n + n % 2) (by omega)
  have htie := (hnearest other).2
  rw [hk, hother, halfway_distance hhalf (by omega), halfway_distance hhalf (by omega)] at htie
  rcases htie rfl with heq | heven
  · rw [← heq, hother] at hk
    exact hne (Nat.eq_of_mul_eq_mul_right hone hk.symm)
  · omega

theorem floorUnits_mul (n : ℤ) : floorUnits (n * unitsPerOne) = n :=
  Int.mul_ediv_cancel n (Nat.cast_ne_zero.2 unitsPerOne_pos.ne')

/-- One half more than a magnitude from 2⁵² on, of either sign, is rounded to the integer that the magnitude is, or to the next one
above if that is odd. -/
theorem floorUnits_half_of_le {rank : ℕ} (h : binade * unitsPerOne ≤ units rank) (negative : Bool) :
    ∃ n : ℕ, units rank = n * unitsPerOne ∧
      floorUnits (nearestUnits (signed negative (units rank) + unitsPerHalf)) = signed negative n + (n % 2 : ℕ) := by
  have hhalf := unitsPerOne_eq_two_mul
  have hpos := unitsPerHalf_pos
  obtain ⟨n, hn, -⟩ := exists_integer_of_le h
  have hle : binade ≤ n := Nat.le_of_mul_le_mul_right (h.trans_eq hn) unitsPerOne_pos
  refine ⟨n, hn, ?_⟩
  cases negative with
  | false =>
    have hsum : signed false (units rank) + unitsPerHalf = (n * unitsPerOne + unitsPerHalf : ℕ) := by
      rw [hn, Nat.cast_add]
      rfl
    rw [hsum, nearestUnits_natCast, units_nearestRank_halfway hle (.inl rfl) hn, Nat.cast_mul, floorUnits_mul, Nat.cast_add]
    rfl
  | true =>
    have hpositive : 0 < n := Nat.lt_of_lt_of_le (by decide) hle
    obtain ⟨m, rfl⟩ : ∃ m, n = m + 1 := Nat.exists_eq_succ_of_ne_zero hpositive.ne'
    have hsum : signed true (units rank) + unitsPerHalf = -(m * unitsPerOne + unitsPerHalf : ℕ) := by
      rw [hn, signed, if_pos rfl, Nat.add_one_mul]
      generalize unitsPerOne = one at *
      omega
    rw [hsum]
    rcases Nat.eq_or_lt_of_le hle with hfirst | hlt
    · -- Below the first integer magnitudes are halves.
      obtain ⟨e, -, hpow, -⟩ := exists_unitsPerHalf_eq
      have habs : (-(m * unitsPerOne + unitsPerHalf : ℕ) : ℤ).natAbs = (2 * m + 1) * 2 ^ e := by
        rw [Int.natAbs_neg, Int.natAbs_natCast, ← hpow, hhalf]
        ring
      have heven : (m + 1) % 2 = 0 := by
        rw [← hfirst]
        rfl
      have hinteger : signed true (m + 1) + ((m + 1) % 2 : ℕ) = -(m + 1 : ℤ) := by rw [heven]; rfl
      have hproduct : -(m + 1 : ℤ) * unitsPerOne = -(m * unitsPerOne : ℕ) - unitsPerOne := by
        rw [Nat.cast_mul]
        ring
      rw [nearestUnits_of_multiple (by omega) habs, hinteger]
      refine floorUnits_eq ?_ ?_ <;> rw [hproduct] <;> generalize unitsPerOne = one at * <;> omega
    · have hproduct : (-((m + m % 2) * unitsPerOne : ℕ) : ℤ) = (-(m + m % 2 : ℕ) : ℤ) * unitsPerOne := by
        rw [Nat.cast_mul, Int.neg_mul]
      rw [nearestUnits_neg (by omega), units_nearestRank_halfway (Nat.le_of_lt_succ hlt) (.inr rfl) hn, hproduct, floorUnits_mul,
        signed, if_pos rfl]
      omega

end Stencil.Binary64

namespace Stencil.Number

open Binary64 (floorUnits nearestUnits unitsPerHalf)

variable {x : Binary64} {u : ℤ}

theorem toInt_of_toUnits? (rule : ℤ → ℤ) (h : x.toUnits? = some u) : toInt rule (.float x) = .ok (rule u) := by
  cases x with
  | nan | infinite => cases h
  | finite => exact congrArg (fun u => Except.ok (rule u)) (Option.some.inj h)

/-- A finite number is rounded by the floor of the nearest sum with one half. -/
theorem round_of_toUnits? (h : x.toUnits? = some u) : round (.float x) = .ok (floorUnits (nearestUnits (u + unitsPerHalf))) := by
  have hlt : (u + unitsPerHalf).natAbs < Binary64.overflowBound * Binary64.unitsPerOne := by
    have hle := Binary64.natAbs_le_of_toUnits? h
    have hlast := Binary64.units_add_unitsPerHalf_lt
    omega
  exact toInt_of_toUnits? floorUnits (Binary64.toUnits?_add h Binary64.toUnits?_half hlt)

end Stencil.Number

namespace Stencil

/-! ## Rounded numbers -/

/-- An integer is a rational number rounded half up: it lies at most one half above and less than one half below. -/
structure IsHalfUp (r : ℤ) (q : ℚ) : Prop where
  le : r - 1 / 2 ≤ q
  lt : q < r + 1 / 2

/-- A number is rounded half up to one integer only. -/
theorem IsHalfUp.unique {r r' : ℤ} {q : ℚ} (h : IsHalfUp r q) (h' : IsHalfUp r' q) : r = r' := by
  have hlt : (r : ℚ) < r' + 1 := by linarith [h.le, h'.lt]
  have hgt : (r' : ℚ) < r + 1 := by linarith [h'.le, h.lt]
  have hlt : r < r' + 1 := by exact_mod_cast hlt
  have hgt : r' < r + 1 := by exact_mod_cast hgt
  omega

theorem IsHalfUp.intCast (n : ℤ) : IsHalfUp n n := ⟨by linarith, by linarith⟩

namespace Binary64

/-- The numbers whose sum with one half is rounded past the next integer: the last one below one half, and the odd integers from
2⁵² on. -/
def RoundsPast (q : ℚ) : Prop := q = 1 / 2 - 1 / 2 ^ 54 ∨ 2 ^ 52 ≤ |q| ∧ ∃ n : ℤ, q = n ∧ n % 2 = 1

/-- The floor of a count of units and one half is the count rounded half up. -/
theorem isHalfUp_floorUnits (u : ℤ) : IsHalfUp (floorUnits (u + unitsPerHalf)) ((u : ℚ) / unitsPerOne) := by
  have hone := unitsPerOne_cast_pos
  have hint : (0 : ℤ) < unitsPerOne := Nat.cast_pos.2 unitsPerOne_pos
  have hhalf : (unitsPerOne : ℚ) = 2 * unitsPerHalf := by exact_mod_cast unitsPerOne_eq_two_mul
  have hle : floorUnits (u + unitsPerHalf) * unitsPerOne ≤ u + unitsPerHalf := Int.ediv_mul_le _ hint.ne'
  have hlt : u + unitsPerHalf < (floorUnits (u + unitsPerHalf) + 1) * unitsPerOne := Int.lt_ediv_add_one_mul_self _ hint
  generalize floorUnits (u + unitsPerHalf) = r at hle hlt ⊢
  have hle : (r : ℚ) * unitsPerOne ≤ u + unitsPerHalf := by exact_mod_cast hle
  have hlt : (u : ℚ) + unitsPerHalf < (r + 1) * unitsPerOne := by exact_mod_cast hlt
  constructor
  · rw [le_div_iff₀ hone]
    linarith
  · rw [div_lt_iff₀ hone]
    linarith

/-- The last magnitude below one half. -/
theorem units_lastBelowHalf : units (halfRank - 1) * 2 ^ 54 = (2 ^ 53 - 1) * unitsPerOne := by decide +kernel

/-- One half more than the last magnitude below one half is a tie, and it is rounded to one. -/
theorem floorUnits_lastBelowHalf : floorUnits (nearestUnits (units (halfRank - 1) + unitsPerHalf)) = 1 := by decide +kernel

/-- The value of the last magnitude below one half. -/
theorem units_lastBelowHalf_div : (units (halfRank - 1) : ℚ) / unitsPerOne = 1 / 2 - 1 / 2 ^ 54 := by
  have hone := unitsPerOne_cast_ne_zero
  have hunits : (units (halfRank - 1) : ℚ) * 2 ^ 54 = (2 ^ 53 - 1) * unitsPerOne := by
    have h := congrArg (Nat.cast (R := ℚ)) units_lastBelowHalf
    rw [Nat.cast_mul, Nat.cast_mul] at h
    norm_num at h ⊢
    exact h
  generalize (units (halfRank - 1) : ℚ) = u at *
  rw [div_eq_iff hone]
  linarith

theorem signed_mul (negative : Bool) (n d : ℕ) : signed negative (n * d) = signed negative n * d := by
  cases negative <;> simp [signed]

theorem signed_mul_div (negative : Bool) (n : ℕ) :
    ((signed negative (n * unitsPerOne) : ℤ) : ℚ) / unitsPerOne = (signed negative n : ℤ) := by
  have hone := unitsPerOne_cast_ne_zero
  rw [signed_mul, Int.cast_mul, Int.cast_natCast, mul_div_cancel_right₀ _ hone]

theorem abs_signed_div (negative : Bool) (magnitude : ℕ) :
    |((signed negative magnitude : ℤ) : ℚ) / unitsPerOne| = (magnitude : ℚ) / unitsPerOne := by
  rw [abs_div, Nat.abs_cast]
  cases negative <;> simp [signed]

/-- A number below 2⁵² is rounded past only if it is the last one below one half. -/
theorem roundsPast_of_lt {negative : Bool} {rank : ℕ} (hlt : units rank < binade * unitsPerOne)
    (h : RoundsPast (((signed negative (units rank) : ℤ) : ℚ) / unitsPerOne)) : negative = false ∧ rank + 1 = halfRank := by
  have hone := unitsPerOne_cast_pos
  rcases h with h | ⟨hle, -⟩
  · rw [← units_lastBelowHalf_div, div_left_inj' hone.ne'] at h
    have hunits : signed negative (units rank) = (units (halfRank - 1) : ℤ) := by exact_mod_cast h
    have hpos : 0 < units (halfRank - 1) := units_strictMono (by decide : 0 < halfRank - 1)
    cases negative with
    | false =>
      have hrank : rank = halfRank - 1 := units_strictMono.injective (Int.ofNat.inj hunits)
      exact ⟨rfl, by rw [hrank]; rfl⟩
    | true =>
      rw [signed, if_pos rfl] at hunits
      omega
  · have hlt : (units rank : ℚ) < binade * unitsPerOne := by exact_mod_cast hlt
    rw [abs_signed_div, le_div_iff₀ hone] at hle
    have hbinade : (binade : ℚ) = 2 ^ 52 := by norm_num
    rw [hbinade] at hlt
    linarith

/-- An integer is rounded past exactly if it is an odd one from 2⁵² on. -/
theorem roundsPast_intCast_iff {n : ℤ} : RoundsPast n ↔ 2 ^ 52 ≤ |n| ∧ n % 2 = 1 := by
  have habs : (2 : ℚ) ^ 52 ≤ |(n : ℚ)| ↔ 2 ^ 52 ≤ |n| := by exact_mod_cast Iff.rfl
  rw [RoundsPast, habs]
  constructor
  · rintro (hhalf | ⟨hle, z, hz, hodd⟩)
    · have hscale : (n : ℚ) * 2 ^ 54 = 2 ^ 53 - 1 := by
        rw [hhalf]
        norm_num
      have hscale : n * 2 ^ 54 = 2 ^ 53 - 1 := by exact_mod_cast hscale
      omega
    · rw [Int.cast_inj.1 hz]
      exact ⟨Int.cast_inj.1 hz ▸ hle, hodd⟩
  · rintro ⟨hle, hodd⟩
    exact .inr ⟨hle, n, rfl, hodd⟩

/-- An integer from 2⁵² on, of either sign, is rounded past exactly if it is odd. -/
theorem roundsPast_signed_iff {n : ℕ} (hle : binade ≤ n) (negative : Bool) : RoundsPast (signed negative n : ℤ) ↔ n % 2 = 1 := by
  rw [roundsPast_intCast_iff, and_iff_right]
  · cases negative <;> simp only [signed, Bool.false_eq_true, if_false, if_true] <;> omega
  · cases negative <;> simp only [signed, Bool.false_eq_true, if_false, if_true, abs_neg, Nat.abs_cast] <;> exact_mod_cast hle

/-! ## Integers as values -/

theorem significand_lt_units : 2 * binade * unitsPerOne < units rankCount := by decide +kernel

/-- Every integer up to 2⁵³, of either sign, is the value of a number. -/
theorem exists_toRat?_intCast {n : ℤ} (h : n.natAbs ≤ 2 * binade) : ∃ x : Binary64, x.toRat? = some (n : ℚ) := by
  obtain ⟨rank, hrank⟩ := exists_units_eq h
  have hlt : rank < rankCount := by
    rw [← units_strictMono.lt_iff_lt, hrank]
    exact (Nat.mul_le_mul_right _ h).trans_lt significand_lt_units
  refine ⟨finite (n < 0) ⟨rank, hlt⟩, ?_⟩
  rw [toRat?, toUnits?, Option.map_some, hrank, signed_mul_div, Text.signed_natAbs]

/-- The values from 2⁵³ on are even integers. -/
theorem even_of_toRat? {x : Binary64} {v : ℚ} (h : x.toRat? = some v) (hle : 2 ^ 53 ≤ |v|) : ∃ n : ℤ, v = n ∧ n % 2 = 0 := by
  obtain ⟨u, hu, rfl⟩ := Option.map_eq_some_iff.1 h
  cases x with
  | nan | infinite => cases hu
  | finite negative rank =>
    cases hu
    have hone := unitsPerOne_cast_pos
    have hfull : 2 * binade * unitsPerOne ≤ units rank := by
      have hpow : ((2 * binade : ℕ) : ℚ) = 2 ^ 53 := by norm_num
      rw [abs_signed_div, le_div_iff₀ hone, ← hpow] at hle
      exact_mod_cast hle
    obtain ⟨n, hn, hodd⟩ := exists_integer_of_le ((Nat.mul_le_mul_right _ (by omega)).trans hfull)
    refine ⟨signed negative n, by rw [hn, signed_mul_div], ?_⟩
    have hlarge : 2 * binade ≤ n := Nat.le_of_mul_le_mul_right (hfull.trans_eq hn) unitsPerOne_pos
    have heven : n % 2 = 0 := Nat.mod_two_ne_one.1 fun h => Nat.not_lt.2 hlarge (hodd h).2
    clear hn hfull
    cases negative <;> simp only [signed, Bool.false_eq_true, if_false, if_true] <;> omega

variable {x y : Binary64} {v q : ℚ}

theorem IsNearest.eq_of_toRat? (h : IsNearest x v q) (hy : y.toRat? = some q) : v = q := by
  have hle := h.le y q hy
  rw [sub_self, abs_zero, abs_nonpos_iff, sub_eq_zero] at hle
  exact hle.symm

/-- What is nearest to an integer from 2⁵³ on lies from there on, too. -/
theorem IsNearest.le_abs {n : ℤ} (h : IsNearest x v n) (hle : 2 ^ 53 ≤ |n|) : 2 ^ 53 ≤ |v| := by
  have hle : (2 : ℚ) ^ 53 ≤ |(n : ℚ)| := by exact_mod_cast hle
  rcases le_total 0 n with hn | hn
  · obtain ⟨y, hy⟩ := exists_toRat?_intCast (n := 2 ^ 53) (by decide)
    have hnear := h.le y _ hy
    rw [abs_of_nonneg (Int.cast_nonneg hn)] at hle
    rw [Int.cast_pow, Int.cast_ofNat, abs_of_nonneg (sub_nonneg.2 hle)] at hnear
    linarith [le_abs_self ((n : ℚ) - v), le_abs_self v]
  · obtain ⟨y, hy⟩ := exists_toRat?_intCast (n := -2 ^ 53) (by decide)
    have hnear := h.le y _ hy
    rw [abs_of_nonpos (Int.cast_nonpos.2 hn)] at hle
    have hdist : (n : ℚ) - -2 ^ 53 ≤ 0 := by linarith
    rw [Int.cast_neg, Int.cast_pow, Int.cast_ofNat, abs_of_nonpos hdist] at hnear
    linarith [neg_abs_le ((n : ℚ) - v), neg_abs_le v]

/-- An integer that is the value of a number lies below the bound. -/
theorem natAbs_lt_of_toRat? {n : ℤ} (h : x.toRat? = some (n : ℚ)) : n.natAbs < overflowBound := by
  have hone := unitsPerOne_pos
  obtain ⟨u, hu, hvalue⟩ := Option.map_eq_some_iff.1 h
  have hunits : u = n * unitsPerOne := by
    rw [div_eq_iff (Nat.cast_ne_zero.2 hone.ne')] at hvalue
    exact_mod_cast hvalue
  have hle := natAbs_le_of_toUnits? hu
  rw [hunits, Int.natAbs_mul, Int.natAbs_natCast] at hle
  exact Nat.lt_of_mul_lt_mul_right (hle.trans_lt ((Nat.le_add_right _ _).trans_lt units_add_unitsPerHalf_lt))

end Binary64

namespace Number

open Binary64 (RoundsPast floorUnits nearestUnits units unitsPerHalf unitsPerOne halfRank binade signed)

/-- A finite number is rounded half up, unless it is one that is rounded past. Then it is rounded to the next integer. -/
theorem round_spec {x : Binary64} {q : ℚ} (h : x.toRat? = some q) :
    ∃ r, round (.float x) = .ok r ∧ (¬RoundsPast q → IsHalfUp r q) ∧ (RoundsPast q → IsHalfUp (r - 1) q) := by
  obtain ⟨u, hu, rfl⟩ := Option.map_eq_some_iff.1 h
  refine ⟨_, round_of_toUnits? hu, ?_⟩
  cases x with
  | nan | infinite => cases hu
  | finite negative rank =>
    cases hu
    rcases Nat.lt_or_ge (units rank) (binade * unitsPerOne) with hlt | hge
    · by_cases hlast : negative = false ∧ rank.val + 1 = halfRank
      · obtain ⟨rfl, hrank⟩ := hlast
        have hrank : rank.val = halfRank - 1 := Nat.eq_sub_of_add_eq hrank
        have hunits : signed false (units rank) = units (halfRank - 1) :=
          congrArg (fun r => (units r : ℤ)) hrank
        rw [hunits, Binary64.floorUnits_lastBelowHalf, Int.cast_natCast, Binary64.units_lastBelowHalf_div]
        refine ⟨fun hnot => absurd (.inl rfl) hnot, fun _ => ?_⟩
        constructor <;> norm_num
      · refine ⟨fun _ => ?_, fun hpast => absurd (Binary64.roundsPast_of_lt hlt hpast) hlast⟩
        have hfloor : floorUnits (nearestUnits (signed negative (units rank) + unitsPerHalf)) =
            floorUnits (signed negative (units rank) + unitsPerHalf) := by
          cases negative with
          | false =>
            rw [signed, if_neg Bool.false_ne_true]
            exact Binary64.floorUnits_half_add hlt fun hrank => hlast ⟨rfl, hrank⟩
          | true =>
            rw [signed, if_pos rfl]
            exact Binary64.floorUnits_half_sub hlt
        rw [hfloor]
        exact Binary64.isHalfUp_floorUnits _
    · obtain ⟨n, hn, hfloor⟩ := Binary64.floorUnits_half_of_le hge negative
      have hle : binade ≤ n := Nat.le_of_mul_le_mul_right (hge.trans_eq hn) Binary64.unitsPerOne_pos
      rw [hfloor, hn, Binary64.signed_mul_div, Binary64.roundsPast_signed_iff hle]
      constructor
      · intro heven
        rw [Nat.mod_two_ne_one.1 heven, Nat.cast_zero, add_zero]
        exact .intCast _
      · intro hodd
        rw [hodd, Nat.cast_one, add_sub_cancel_right]
        exact .intCast _

/-- A step that takes integers to the binary64 numbers that they round to, and fails where that is an infinity. -/
def TakesIntegers (ofInt : ℤ → Binary64) (take : Number → Except Fault Binary64) : Prop :=
  ∀ n x, ofInt n = x → (∀ negative, x = .infinite negative → take (.int n) = .error .integerTooLarge) ∧
    (x.isFinite = true → take (.int n) = .ok x)

/-- Integers are taken like that. -/
theorem toBinary64_takesIntegers : TakesIntegers Binary64.ofInt toBinary64 := by
  delta toBinary64
  refine id ?_
  -- The goal is turned into one about any way to round integers, as this one would be evaluated.
  generalize Binary64.ofInt = ofInt
  revert ofInt
  refine id ?_
  intro ofInt n x hx
  dsimp only
  rw [hx]
  cases x with
  | nan => exact ⟨nofun, nofun⟩
  | infinite => exact ⟨fun _ _ => rfl, nofun⟩
  | finite => exact ⟨nofun, fun _ => rfl⟩

section

variable {n : ℤ}

/-- An integer below the bound is rounded like the binary64 number nearest to it. -/
theorem round_int_of_lt (hlt : n.natAbs < Binary64.overflowBound) :
    ∃ (x : Binary64) (v : ℚ), x.IsNearest v n ∧ round (.int n) = round (.float x) := by
  rw [← Nat.mul_one Binary64.overflowBound] at hlt
  have hnearest := Binary64.isNearest_ofRatio (n < 0) Nat.one_pos hlt
  rw [Text.signed_natAbs, Nat.cast_one, div_one] at hnearest
  refine ⟨_, _, hnearest, ?_⟩
  rw [round, (toBinary64_takesIntegers n _ rfl).2 hnearest.isFinite]
  rfl

/-- An integer from the bound on is not rounded. -/
theorem round_int_of_le (hle : Binary64.overflowBound ≤ n.natAbs) : round (.int n) = .error .integerTooLarge := by
  rw [← Nat.mul_one Binary64.overflowBound] at hle
  have hinfinite := Binary64.ofRatio_infinite (n < 0) Nat.one_pos hle
  rw [round, (toBinary64_takesIntegers n _ rfl).1 _ hinfinite]
  rfl

/-- An integer is rounded to itself exactly if it is at most 2⁵², or even and the value of a binary64 number. -/
theorem round_int_iff : round (.int n) = .ok n ↔ |n| ≤ 2 ^ 52 ∨ n % 2 = 0 ∧ ∃ x : Binary64, x.toRat? = some (n : ℚ) := by
  constructor
  · intro h
    rcases Nat.lt_or_ge n.natAbs Binary64.overflowBound with hlt | hge
    · obtain ⟨x, v, hnearest, hround⟩ := round_int_of_lt hlt
      obtain ⟨r, hr, hhalf, hpast⟩ := round_spec hnearest.toRat?_eq
      rw [h, hr] at hround
      obtain rfl := Except.ok.inj hround
      rcases Nat.le_total n.natAbs (2 * binade) with hle | hge
      · obtain ⟨y, hy⟩ := Binary64.exists_toRat?_intCast hle
        rw [hnearest.eq_of_toRat? hy] at hpast
        have hnot : ¬RoundsPast n := fun h => by
          have hunique := (hpast h).unique (.intCast n)
          omega
        rw [Binary64.roundsPast_intCast_iff] at hnot
        rcases (by omega : |n| ≤ 2 ^ 52 ∨ n % 2 = 0) with hsmall | heven
        · exact .inl hsmall
        · exact .inr ⟨heven, y, hy⟩
      · have hlarge : 2 ^ 53 ≤ |n| := by
          rw [Int.abs_eq_natAbs]
          exact_mod_cast hge
        obtain ⟨z, rfl, heven⟩ := Binary64.even_of_toRat? hnearest.toRat?_eq (hnearest.le_abs hlarge)
        have hnot : ¬RoundsPast z := fun h => by
          have hodd := (Binary64.roundsPast_intCast_iff.1 h).2
          omega
        rw [(hhalf hnot).unique (.intCast z)]
        exact .inr ⟨heven, x, hnearest.toRat?_eq⟩
    · rw [round_int_of_le hge] at h
      cases h
  · intro h
    obtain ⟨hnot, y, hy⟩ : ¬RoundsPast n ∧ ∃ y : Binary64, y.toRat? = some (n : ℚ) := by
      rw [Binary64.roundsPast_intCast_iff]
      rcases h with hle | ⟨heven, hvalue⟩
      · have hfull : (2 : ℤ) ^ 53 = (2 * binade : ℕ) := by decide
        rw [Int.abs_eq_natAbs] at hle ⊢
        refine ⟨fun h => ?_, Binary64.exists_toRat?_intCast ?_⟩
        · obtain ⟨hge, hodd⟩ := h
          omega
        · omega
      · exact ⟨fun h => by omega, hvalue⟩
    obtain ⟨x, v, hnearest, hround⟩ := round_int_of_lt (Binary64.natAbs_lt_of_toRat? hy)
    obtain ⟨r, hr, hhalf, -⟩ := round_spec hnearest.toRat?_eq
    rw [hnearest.eq_of_toRat? hy] at hhalf
    rw [hround, hr, (hhalf hnot).unique (.intCast n)]

end

end Number

open Binary64 (overflowBound RoundsPast units unitsPerOne halfRank)

/-- Rounding gives what the number is rounded to, or fails with its fault. -/
theorem Builtin.apply_round [World] (m : Number) : apply (.math .round) [.number m] = Value.int <$> Fault.ofNumber m.round := rfl

/-- An integer is given back by rounding exactly if it is rounded to itself. -/
theorem Builtin.apply_round_eq_ok [World] {m : Number} {n : ℤ} : apply (.math .round) [.number m] = .ok (.int n) ↔ m.round = .ok n := by
  rw [apply_round]
  cases m.round with
  | error e => exact ⟨nofun, nofun⟩
  | ok r => exact ⟨fun h => by cases h; rfl, fun h => by cases h; rfl⟩

/-- Rounding down, up and toward zero gives every integer back. Rounding half up goes through binary64: an integer is rounded like
the binary64 number nearest to it, if that is no infinity, and so it is given back exactly if it is at most 2⁵² or an even value of
a binary64 number. A finite binary64 number is rounded half up, unless it is the last one below one half or an odd integer from 2⁵²
on. Then the integer after that is given. -/
theorem Builtin.rounding [World] (n : ℤ) (x : Binary64) :
    ((∀ f ∈ [MathFunction.floor, .ceil, .trunc], apply (.math f) [.int n] = .ok (.int n)) ∧
      (apply (.math .round) [.int n] = .ok (.int n) ↔
        |n| ≤ 2 ^ 52 ∨ n % 2 = 0 ∧ ∃ y : Binary64, y.toRat? = some (n : ℚ)) ∧
      (|n| < overflowBound → ∃ (y : Binary64) (v : ℚ), y.IsNearest v n ∧
        apply (.math .round) [.int n] = apply (.math .round) [.number (.float y)]) ∧
      (overflowBound ≤ |n| → apply (.math .round) [.int n] = .error (.arithmetic .integerTooLarge))) ∧
    ∀ q : ℚ, x.toRat? = some q → ∃ r : ℤ, apply (.math .round) [.number (.float x)] = .ok (.int r) ∧
      (¬RoundsPast q → ∀ z, IsHalfUp z q ↔ z = r) ∧ (RoundsPast q → ∀ z, IsHalfUp z q ↔ z = r - 1) := by
  refine ⟨⟨fun f hf => ?_, apply_round_eq_ok.trans Number.round_int_iff, fun hlt => ?_, fun hle => ?_⟩, fun q hq => ?_⟩
  · rcases List.mem_cons.1 hf with rfl | hf
    · rfl
    rcases List.mem_pair.1 hf with rfl | rfl <;> rfl
  · rw [Int.abs_eq_natAbs] at hlt
    obtain ⟨y, v, hnearest, hround⟩ := Number.round_int_of_lt (Int.ofNat_lt.1 hlt)
    exact ⟨y, v, hnearest, by rw [Value.int, apply_round, apply_round, hround]⟩
  · rw [Int.abs_eq_natAbs] at hle
    rw [Value.int, apply_round, Number.round_int_of_le (Int.ofNat_le.1 hle)]
    rfl
  · obtain ⟨r, hr, hhalf, hpast⟩ := Number.round_spec hq
    refine ⟨r, apply_round_eq_ok.2 hr, fun hnot z => ?_, fun h z => ?_⟩
    · exact ⟨fun hz => hz.unique (hhalf hnot), fun hz => hz ▸ hhalf hnot⟩
    · exact ⟨fun hz => hz.unique (hpast h), fun hz => hz ▸ hpast h⟩

/-- The last finite number below one half. -/
def Binary64.lastBelowHalf : Binary64 := .finite false ⟨halfRank - 1, by decide⟩

/-- Two and a half. -/
def Binary64.twoAndHalf : Binary64 := .finite false ⟨4612811918334230528, by decide⟩

theorem Binary64.toRat?_lastBelowHalf : lastBelowHalf.toRat? = some (1 / 2 - 1 / 2 ^ 54) := by
  have hunits : lastBelowHalf.toUnits? = some (units (halfRank - 1) : ℤ) := rfl
  rw [toRat?, hunits, Option.map_some, Int.cast_natCast, units_lastBelowHalf_div]

/-- The value of two and a half. -/
theorem Binary64.toRat?_twoAndHalf : twoAndHalf.toRat? = some (5 / 2) := by
  have hone := unitsPerOne_cast_ne_zero
  have hvalue : (units 4612811918334230528 : ℚ) * 2 = 5 * unitsPerOne := by
    exact_mod_cast (by decide +kernel : units 4612811918334230528 * 2 = 5 * unitsPerOne)
  have hunits : twoAndHalf.toUnits? = some (units 4612811918334230528 : ℤ) := rfl
  rw [toRat?, hunits, Option.map_some, Int.cast_natCast, (div_eq_div_iff hone two_ne_zero).2 hvalue]

open scoped World in
/-- One half above an integer is rounded up. The last number below one half is rounded past, an odd integer from 2⁵² on is rounded
like a binary64 number, and the first integer that has none fails. -/
theorem Builtin.rounding_two_and_half :
    (∃ r : ℤ, apply (.math .round) [.number (.float .twoAndHalf)] = .ok (.int r) ∧ ∀ z, IsHalfUp z (5 / 2) ↔ z = r) ∧
    (∃ r : ℤ, apply (.math .round) [.number (.float .lastBelowHalf)] = .ok (.int r) ∧
      ∀ z, IsHalfUp z (1 / 2 - 1 / 2 ^ 54) ↔ z = r - 1) ∧
    (∃ (x : Binary64) (v : ℚ), x.IsNearest v ((2 ^ 52 + 1 : ℤ) : ℚ) ∧
      apply (.math .round) [.int (2 ^ 52 + 1)] = apply (.math .round) [.number (.float x)]) ∧
    apply (.math .round) [.int overflowBound] = .error (.arithmetic .integerTooLarge) := by
  have hbetween : ¬RoundsPast (5 / 2) := by
    rintro (h | ⟨h, -⟩)
    · norm_num at h
    · norm_num [abs_of_pos] at h
  obtain ⟨r, hr, hhalf, -⟩ := (rounding 0 _).2 _ Binary64.toRat?_twoAndHalf
  obtain ⟨s, hs, -, hpast⟩ := (rounding 0 _).2 _ Binary64.toRat?_lastBelowHalf
  have hlt : |(2 ^ 52 + 1 : ℤ)| < overflowBound := by decide +kernel
  exact ⟨⟨r, hr, hhalf hbetween⟩, ⟨s, hs, hpast (.inl rfl)⟩, (rounding _ .zero).1.2.2.1 hlt,
    (rounding _ .zero).1.2.2.2 (le_abs_self _)⟩

open scoped World in
/-- Not every finite number is rounded half up: the last one below one half is not. -/
theorem Builtin.not_rounding_half_up :
    ¬∀ (x : Binary64) (q : ℚ), x.toRat? = some q →
      ∃ r : ℤ, apply (.math .round) [.number (.float x)] = .ok (.int r) ∧ IsHalfUp r q := by
  intro h
  have hround : (Number.float .lastBelowHalf).round = .ok 1 := by
    have hunits : Binary64.lastBelowHalf.toUnits? = some (units (halfRank - 1) : ℤ) := rfl
    rw [Number.round_of_toUnits? hunits, Binary64.floorUnits_lastBelowHalf]
  obtain ⟨r, hr, hhalf⟩ := h .lastBelowHalf _ Binary64.toRat?_lastBelowHalf
  rw [apply_round_eq_ok, hround] at hr
  cases hr
  have hle := hhalf.le
  norm_num at hle

end Stencil
