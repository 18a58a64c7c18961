import Stencil.Proofs.Division
import Stencil.Proofs.HalfUp
import Stencil.Proofs.Overlong

/-!
# Leading digits of numbers

The leading integer of a number is read from its text, and the text has three layouts: the numeral of an integer, a decimal that is
written out, and one digit before a point or an exponent. This module says what the leading digits are in each.

The digits of a number that is no integer are those of the shortest decimal between the midpoints to its neighbours (`Within`,
`shortest_within`). A magnitude stays on the same side of every other magnitude under that (`Within.lt_grains`, `Within.grains_lt`),
and the integers on both sides of a number that is none are magnitudes, so that the digits before the point are its integer part
(`Within.div_eq`). Where the layout changes, at 10⁻⁴, there is no magnitude. The least one above is written as 10⁻⁴ itself, and the
midpoint before it lies below, so that the shortest decimals change sides together with the magnitudes (`Within.tenThousandth_le_iff`).
-/

namespace Stencil

open Binary64 (tenTo layout)

/-! ## Numerals and powers of ten -/

theorem Binary64.tenTo_succ (k : ℕ) : tenTo (k + 1) = 10 * tenTo k := Nat.pow_succ'

theorem Binary64.tenTo_add (j k : ℕ) : tenTo (j + k) = tenTo j * tenTo k := Nat.pow_add 10 j k

theorem Binary64.tenTo_pos (k : ℕ) : 0 < tenTo k := Nat.pow_pos (by decide)

theorem Binary64.tenTo_lt_tenTo_iff {j k : ℕ} : tenTo j < tenTo k ↔ j < k := Nat.pow_lt_pow_iff_right (by decide)

/-- A numeral starts with that of the quotient by a power of ten; as many digits follow as the power has zeros. -/
theorem Text.numeral_eq_append {n k : ℕ} (h : tenTo k ≤ n) :
    ∃ tail : Text, numeral n = numeral (n / tenTo k) ++ tail ∧ tail.length = k := by
  induction k generalizing n with
  | zero => exact ⟨[], by rw [List.append_nil]; exact congrArg numeral (Nat.div_one n).symm, rfl⟩
  | succ k ih =>
    rw [Binary64.tenTo_succ] at h ⊢
    have hpos := Binary64.tenTo_pos k
    obtain ⟨tail, htail, hlength⟩ := ih (n := n / 10) (by omega)
    refine ⟨tail ++ [(n % 10).digitChar], ?_, by rw [List.length_append, hlength]; rfl⟩
    rw [numeral, Nat.toDigits_of_base_le (by decide) (by omega), ← Nat.div_div_eq_div_mul, ← List.append_assoc, ← htail]
    rfl

theorem Text.length_numeral_pos (n : ℕ) : 0 < (numeral n).length := List.length_pos_iff.2 Nat.toDigits_ne_nil

/-- A numeral has more digits than a power of ten has zeros exactly if the number is not below the power. -/
theorem Text.lt_length_numeral_iff {n k : ℕ} (hn : 0 < n) : k < (numeral n).length ↔ tenTo k ≤ n := by
  rcases Nat.eq_zero_or_pos k with rfl | hk
  · exact iff_of_true (length_numeral_pos n) hn
  · rw [← Nat.not_le, length_numeral_le_iff hk, Nat.not_lt]

theorem Text.numeral_of_lt {d : ℕ} (h : d < 10) : numeral d = [d.digitChar] := Nat.toDigits_of_lt_base h

/-- A numeral starts with one digit, which is not zero if the number is not. -/
theorem Text.exists_leading_digit {n : ℕ} (hn : 0 < n) : ∃ d, 1 ≤ d ∧ d ≤ 9 ∧ (numeral n).take 1 = numeral d := by
  obtain ⟨k, hk⟩ := Nat.exists_eq_add_of_lt (length_numeral_pos n)
  rw [Nat.zero_add] at hk
  have hle : tenTo k ≤ n := (lt_length_numeral_iff hn).1 (by omega)
  have hlt : n < tenTo (k + 1) := (length_numeral_le_iff k.succ_pos).1 hk.le
  obtain ⟨tail, htail, -⟩ := numeral_eq_append hle
  rw [Binary64.tenTo_succ] at hlt
  have hdigit : n / tenTo k < 10 := Nat.div_lt_of_lt_mul (by rwa [Nat.mul_comm])
  refine ⟨n / tenTo k, Nat.div_pos hle (Binary64.tenTo_pos k), Nat.le_of_lt_succ hdigit, ?_⟩
  rw [htail, numeral_of_lt hdigit]
  rfl

/-! ## Layouts -/

/-- A text starts with the numeral of a number, and what follows does not start with a digit. -/
def Text.LeadsWith (n : ℕ) (t : Text) : Prop := ∃ rest, t = numeral n ++ rest ∧ ∀ c ∈ rest.head?, isDigit c = false

namespace Binary64

variable {n k : ℕ}

/-- A decimal that is not below one and has less than seventeen digits before the point starts with them. -/
theorem leadsWith_layout_whole (hle : tenTo (k + 1) ≤ n) (hlt : n < tenTo (k + 1 + 16)) :
    (layout (Text.numeral n) (-(k + 1 : ℕ))).LeadsWith (n / tenTo (k + 1)) := by
  have hlong : k + 1 < (Text.numeral n).length := (Text.lt_length_numeral_iff ((tenTo_pos _).trans_le hle)).2 hle
  have hshort : (Text.numeral n).length ≤ k + 1 + 16 := (Text.length_numeral_le_iff (by omega)).2 hlt
  obtain ⟨tail, htail, hlength⟩ := Text.numeral_eq_append hle
  have hcut : (((Text.numeral n).length + -((k + 1 : ℕ) : ℤ) - 1).toNat + 1) = (Text.numeral (n / tenTo (k + 1))).length := by
    rw [htail, List.length_append, hlength] at hlong ⊢
    omega
  rw [layout, if_pos (by simp; omega), if_neg (by omega), if_pos (by omega), hcut, htail, List.take_left, List.drop_left]
  exact ⟨'.' :: tail, by simp, by simp; decide⟩

/-- A decimal below one that is not below 10⁻⁴ starts with a zero. -/
theorem leadsWith_layout_fraction (hlt : n < tenTo (k + 1)) (hle : tenTo (k + 1) ≤ n * tenTo 4) :
    (layout (Text.numeral n) (-(k + 1 : ℕ))).LeadsWith 0 := by
  have hshort : (Text.numeral n).length ≤ k + 1 := (Text.length_numeral_le_iff k.succ_pos).2 hlt
  have hlong : k + 1 < (Text.numeral n).length + 4 := by
    have hbelow : n < tenTo (Text.numeral n).length := (Text.length_numeral_le_iff (Text.length_numeral_pos n)).1 (Nat.le_refl _)
    rw [← tenTo_lt_tenTo_iff, tenTo_add _ 4]
    exact hle.trans_lt ((Nat.mul_lt_mul_right (tenTo_pos 4)).2 hbelow)
  rw [layout, if_pos (by simp; omega), if_neg (by omega), if_neg (by omega), List.append_assoc]
  exact ⟨'.' :: _, rfl, by simp; decide⟩

/-- A decimal below 10⁻⁴ starts with its first digit, and the point or the exponent follows. -/
theorem leadsWith_layout_exponent (hn : 0 < n) (hlt : n * tenTo 4 < tenTo (k + 1)) :
    ∃ d, 1 ≤ d ∧ d ≤ 9 ∧ (layout (Text.numeral n) (-(k + 1 : ℕ))).LeadsWith d := by
  have hshort : (Text.numeral n).length + 4 ≤ k + 1 := by
    obtain ⟨j, hj⟩ := Nat.exists_eq_add_of_lt (Text.length_numeral_pos n)
    rw [hj]
    have hle : tenTo (0 + j) ≤ n := (Text.lt_length_numeral_iff hn).1 (by omega)
    have hpow := (Nat.mul_le_mul_right _ hle).trans_lt hlt
    rw [← tenTo_add, tenTo_lt_tenTo_iff] at hpow
    omega
  obtain ⟨d, hone, hnine, hd⟩ := Text.exists_leading_digit hn
  refine ⟨d, hone, hnine, ?_⟩
  rw [layout, if_neg (by simp; omega), hd, List.append_assoc, List.append_assoc]
  refine ⟨_, rfl, ?_⟩
  split <;> simp <;> decide

/-! ## The shortest decimal -/

/-- The coarsest grid has a point between the bounds. -/
theorem coarsestGrid_spec {low high : ℕ} (h : low ≤ high) (start : ℕ) :
    low ≤ high / tenTo (coarsestGrid low high start) * tenTo (coarsestGrid low high start) := by
  induction start with
  | zero =>
    have hone : tenTo 0 = 1 := rfl
    rwa [coarsestGrid, hone, Nat.div_one, Nat.mul_one]
  | succ k ih =>
    rw [coarsestGrid]
    split
    · assumption
    · exact ih

/-- The nearest whole number is the quotient or the next one. -/
theorem divideToEven_cases (n d : ℕ) : divideToEven n d = n / d ∨ divideToEven n d = n / d + 1 := by
  simp only [divideToEven]
  split
  · exact .inl rfl
  · split
    · exact .inr rfl
    · omega

/-- The nearest multiple lies between the bounds, if one does. -/
theorem nearestMultiple_spec {low high target step : ℕ} (hstep : 0 < step) (hlow : low ≤ target) (hhigh : target ≤ high)
    (hgrid : low ≤ high / step * step) :
    low ≤ nearestMultiple low high target step * step ∧ nearestMultiple low high target step * step ≤ high := by
  have hbelow : target / step * step ≤ target := Nat.div_mul_le_self target step
  have habove : target < (target / step + 1) * step := Nat.lt_mul_of_div_lt (Nat.lt_succ_self _) hstep
  rw [nearestMultiple]
  split
  · rename_i hlt
    have hnext : target / step < high / step := Nat.lt_of_mul_lt_mul_right (hlt.trans_le hgrid)
    exact ⟨hlow.trans habove.le, (Nat.mul_le_mul_right _ hnext).trans (Nat.div_mul_le_self high step)⟩
  · rename_i hle
    split
    · exact ⟨Nat.not_lt.1 hle, hbelow.trans hhigh⟩
    · rename_i hnext
      rcases divideToEven_cases target step with heq | heq
      · exact heq ▸ ⟨Nat.not_lt.1 hle, hbelow.trans hhigh⟩
      · exact heq ▸ ⟨hlow.trans habove.le, Nat.not_lt.1 hnext⟩

theorem grainsPerHalfUnit_pos : 0 < grainsPerHalfUnit := by decide +kernel

/-- The grains of a magnitude lie in its interval, whose ends lie at most at the midpoints to the neighbours. -/
theorem grainInterval_spec {rank : ℕ} (h : rank ≠ 0) : (grainInterval rank).1 ≤ grains rank ∧ grains rank ≤ (grainInterval rank).2 ∧
    (units (rank - 1) + units rank) * grainsPerHalfUnit ≤ (grainInterval rank).1 ∧
    (grainInterval rank).2 ≤ (units rank + units (rank + 1)) * grainsPerHalfUnit := by
  have hbelow : units (rank - 1) < units rank := units_strictMono (Nat.sub_one_lt h)
  have habove : units rank < units (rank + 1) := units_strictMono (Nat.lt_succ_self rank)
  have hlow : (units (rank - 1) + units rank) * grainsPerHalfUnit < grains rank :=
    Nat.mul_lt_mul_of_pos_right (by omega) grainsPerHalfUnit_pos
  have hhigh : grains rank < (units rank + units (rank + 1)) * grainsPerHalfUnit :=
    Nat.mul_lt_mul_of_pos_right (by omega) grainsPerHalfUnit_pos
  simp only [grainInterval]
  split <;> dsimp only <;> omega

/-- A count of grains lies between the midpoints of a magnitude and its neighbours. -/
structure Within (rank count : ℕ) : Prop where
  /-- It is not below the midpoint to the magnitude before. -/
  low : (units (rank - 1) + units rank) * grainsPerHalfUnit ≤ count
  /-- It is not above the midpoint to the magnitude after. -/
  high : count ≤ (units rank + units (rank + 1)) * grainsPerHalfUnit

/-- The shortest decimal of a magnitude lies between the midpoints to the neighbours. -/
theorem shortest_within {rank : ℕ} (h : rank ≠ 0) :
    ∃ digits k : ℕ, shortest rank = (digits, (k : ℤ) - 1075) ∧ Within rank (digits * tenTo k) := by
  obtain ⟨hlow, hhigh, hbelow, habove⟩ := grainInterval_spec h
  have hgrid := coarsestGrid_spec (hlow.trans hhigh) (exponentAbove (grainInterval rank).2)
  obtain ⟨hle, hge⟩ := nearestMultiple_spec (tenTo_pos _) hlow hhigh hgrid
  exact ⟨_, _, rfl, hbelow.trans hle, hge.trans habove⟩

namespace Within

variable {rank other count : ℕ}

/-- A magnitude below another lies below all that is between the midpoints of that. -/
theorem grains_lt (h : Within rank count) (hlt : units other < units rank) : grains other < count := by
  have hle : units other ≤ units (rank - 1) := units_strictMono.monotone (Nat.le_pred_of_lt (units_strictMono.lt_iff_lt.1 hlt))
  exact (Nat.mul_lt_mul_of_pos_right (by omega) grainsPerHalfUnit_pos).trans_le h.low

/-- A magnitude above another lies above all that is between the midpoints of that. -/
theorem lt_grains (h : Within rank count) (hlt : units rank < units other) : count < grains other := by
  have hle : units (rank + 1) ≤ units other := units_strictMono.monotone (Nat.succ_le_of_lt (units_strictMono.lt_iff_lt.1 hlt))
  exact h.high.trans_lt (Nat.mul_lt_mul_of_pos_right (by omega) grainsPerHalfUnit_pos)

theorem pos (h : Within rank count) (hrank : rank ≠ 0) : 0 < count :=
  (Nat.zero_le _).trans_lt (h.grains_lt (units_strictMono (Nat.pos_of_ne_zero hrank)))

end Within

/-! ## Magnitudes that are no integers -/

/-- One is a power of ten of grains. The exponent has a name, as the power is too large to be found. -/
theorem exists_grains_one_eq : ∃ e : ℕ, e = 1075 ∧ 2 * unitsPerOne * grainsPerHalfUnit = tenTo e :=
  ⟨1075, rfl, by decide +kernel⟩

/-- The rank of the least magnitude from 10⁻⁴ on. -/
def tenThousandthRank : ℕ := 4547007122018943789

theorem units_tenThousandthRank : units (tenThousandthRank - 1) * tenTo 4 < unitsPerOne ∧
    unitsPerOne ≤ units tenThousandthRank * tenTo 4 := by
  decide +kernel

/-- The midpoint before the least magnitude from 10⁻⁴ on lies below 10⁻⁴. -/
theorem midpoint_tenThousandthRank : (units (tenThousandthRank - 1) + units tenThousandthRank) * grainsPerHalfUnit * tenTo 4 <
    2 * unitsPerOne * grainsPerHalfUnit := by
  decide +kernel

/-- The least magnitude from 10⁻⁴ on is written as 10⁻⁴. -/
theorem shortest_tenThousandthRank : shortest tenThousandthRank = (1, -4) := by decide +kernel

/-- The shortest decimal of a magnitude is below 10⁻⁴ exactly if the magnitude is. -/
theorem Within.tenThousandth_le_iff {rank digits k e : ℕ} (h : Within rank (digits * tenTo k))
    (hshortest : shortest rank = (digits, (k : ℤ) - 1075)) (he : e = 1075)
    (hone : 2 * unitsPerOne * grainsPerHalfUnit = tenTo e) :
    tenTo e ≤ digits * tenTo k * tenTo 4 ↔ unitsPerOne ≤ units rank * tenTo 4 := by
  obtain ⟨hbefore, hafter⟩ := units_tenThousandthRank
  rcases Nat.lt_trichotomy rank tenThousandthRank with hlt | rfl | hgt
  · have hle : units rank ≤ units (tenThousandthRank - 1) := units_strictMono.monotone (Nat.le_pred_of_lt hlt)
    have hnext : units (rank + 1) ≤ units tenThousandthRank := units_strictMono.monotone hlt
    refine iff_of_false (Nat.not_le.2 ?_) (Nat.not_le.2 ((Nat.mul_le_mul_right _ hle).trans_lt hbefore))
    calc digits * tenTo k * tenTo 4
        ≤ (units (tenThousandthRank - 1) + units tenThousandthRank) * grainsPerHalfUnit * tenTo 4 :=
          Nat.mul_le_mul_right _ (h.high.trans (Nat.mul_le_mul_right _ (Nat.add_le_add hle hnext)))
      _ < tenTo e := midpoint_tenThousandthRank.trans_eq hone
  · rw [shortest_tenThousandthRank, Prod.mk.injEq] at hshortest
    obtain ⟨rfl, hk⟩ := hshortest
    have hexponent : e = k + 4 := by omega
    rw [hexponent, tenTo_add, Nat.one_mul]
    exact iff_of_true (Nat.le_refl _) hafter
  · have hlt : units tenThousandthRank < units rank := units_strictMono hgt
    refine iff_of_true ?_ (hafter.trans (Nat.mul_le_mul_right _ hlt.le))
    calc tenTo e = 2 * unitsPerOne * grainsPerHalfUnit := hone.symm
      _ ≤ 2 * (units tenThousandthRank * tenTo 4) * grainsPerHalfUnit :=
          Nat.mul_le_mul_right _ (Nat.mul_le_mul_left _ hafter)
      _ = grains tenThousandthRank * tenTo 4 := by rw [grains]; ring
      _ ≤ digits * tenTo k * tenTo 4 := Nat.mul_le_mul_right _ (h.grains_lt hlt).le

/-- The digits before the point of the shortest decimal of a magnitude that is no integer are its integer part. The decimal has
a digit after the point and less than seventeen before it. -/
theorem Within.div_eq {rank digits k e : ℕ} (h : Within rank (digits * tenTo k)) (hrank : units rank % unitsPerOne ≠ 0)
    (hone : 2 * unitsPerOne * grainsPerHalfUnit = tenTo e) :
    ∃ f, e = k + (f + 1) ∧ digits / tenTo (f + 1) = units rank / unitsPerOne ∧ digits < tenTo (f + 1 + 16) := by
  have hpos := unitsPerOne_pos
  have hdiv : units rank / unitsPerOne * unitsPerOne + units rank % unitsPerOne = units rank := Nat.div_add_mod' _ _
  have hmod : units rank % unitsPerOne < unitsPerOne := Nat.mod_lt _ hpos
  have hlt : units rank / unitsPerOne < binade := by
    refine Nat.div_lt_of_lt_mul (Nat.not_le.1 fun hle => ?_)
    obtain ⟨n, hn, -⟩ := exists_integer_of_le (by rwa [Nat.mul_comm])
    exact hrank (hn ▸ Nat.mul_mod_left n unitsPerOne)
  generalize units rank / unitsPerOne = n at *
  obtain ⟨low, hbelow⟩ := exists_units_eq (k := n) (by omega)
  obtain ⟨high, habove⟩ := exists_units_eq (k := n + 1) (by omega)
  have hgrains {other m : ℕ} (h : units other = m * unitsPerOne) : grains other = m * tenTo e := by
    rw [grains, h, ← hone]
    ring
  have hge : n * tenTo e < digits * tenTo k := by
    rw [← hgrains hbelow]
    exact h.grains_lt (by rw [hbelow]; omega)
  have hle : digits * tenTo k < (n + 1) * tenTo e := by
    rw [← hgrains habove]
    exact h.lt_grains (by rw [habove, Nat.add_one_mul]; omega)
  have hk : k < e := by
    refine Nat.not_le.1 fun hek => ?_
    obtain ⟨i, rfl⟩ := Nat.exists_eq_add_of_le hek
    rw [tenTo_add, Nat.mul_left_comm, Nat.mul_comm (tenTo e)] at hge hle
    have hge := Nat.lt_of_mul_lt_mul_right hge
    have hle := Nat.lt_of_mul_lt_mul_right hle
    omega
  obtain ⟨f, rfl⟩ := Nat.exists_eq_add_of_lt hk
  rw [Nat.add_assoc, tenTo_add, Nat.mul_left_comm, Nat.mul_comm (tenTo k)] at hge hle
  have hge := Nat.lt_of_mul_lt_mul_right hge
  have hle := Nat.lt_of_mul_lt_mul_right hle
  refine ⟨f, Nat.add_assoc k f 1, Nat.div_eq_of_lt_le hge.le hle, hle.trans_le ?_⟩
  rw [tenTo_add _ 16, Nat.mul_comm (tenTo (f + 1))]
  exact Nat.mul_le_mul_right _ (hlt.trans (by decide))

/-- The text of a number that is no integer starts with the digits of its integer part from 10⁻⁴ on, and below that with a single
digit other than zero. -/
theorem toText_leads (negative : Bool) {rank : Fin rankCount} (h : units rank % unitsPerOne ≠ 0) :
    ∃ t, toText (finite negative rank) = Text.minus negative ++ t ∧
      (unitsPerOne ≤ units rank * tenTo 4 → t.LeadsWith (units rank / unitsPerOne)) ∧
      (units rank * tenTo 4 < unitsPerOne → ∃ d, 1 ≤ d ∧ d ≤ 9 ∧ t.LeadsWith d) := by
  have hrank : rank.val ≠ 0 := fun hzero => h (by rw [hzero]; exact Nat.zero_mod _)
  obtain ⟨e, he, hone⟩ := exists_grains_one_eq
  obtain ⟨digits, k, hshortest, hwithin⟩ := shortest_within hrank
  have hthreshold := hwithin.tenThousandth_le_iff hshortest he hone
  obtain ⟨f, rfl, hdiv, hsize⟩ := hwithin.div_eq h hone
  rw [tenTo_add, Nat.mul_right_comm, Nat.mul_comm (tenTo k), Nat.mul_le_mul_right_iff (tenTo_pos k)] at hthreshold
  have hexponent : (k : ℤ) - 1075 = -(f + 1 : ℕ) := by omega
  have hdigits : 0 < digits := Nat.pos_of_mul_pos_right (hwithin.pos hrank)
  refine ⟨layout (Text.numeral digits) (-(f + 1 : ℕ)), ?_, ?_, ?_⟩
  · rw [toText, if_neg hrank, hshortest, hexponent]
    cases negative <;> rfl
  · intro hle
    rw [← hdiv]
    rcases Nat.lt_or_ge digits (tenTo (f + 1)) with hlt | hge
    · rw [Nat.div_eq_of_lt hlt]
      exact leadsWith_layout_fraction hlt (hthreshold.2 hle)
    · exact leadsWith_layout_whole hge hsize
  · intro hlt
    exact leadsWith_layout_exponent hdigits (Nat.not_le.1 (mt hthreshold.1 (Nat.not_le.2 hlt)))

/-! ## Signed magnitudes -/

section

variable (negative : Bool) {magnitude : ℕ}

theorem signed_div_eq_zero_iff : ((signed negative magnitude : ℤ) : ℚ) / unitsPerOne = 0 ↔ magnitude = 0 := by
  have hone := unitsPerOne_cast_ne_zero
  rw [← abs_eq_zero, abs_signed_div, div_eq_zero_iff, or_iff_left hone, Nat.cast_eq_zero]

/-- A number that is not zero lies below zero exactly if it has the minus sign. -/
theorem signed_div_neg_iff (hpos : 0 < magnitude) : ((signed negative magnitude : ℤ) : ℚ) / unitsPerOne < 0 ↔ negative = true := by
  have hone := unitsPerOne_cast_pos
  rw [div_lt_iff₀ hone, zero_mul, Int.cast_lt_zero]
  cases negative <;> simp [signed, hpos]

/-- A number is not below 10⁻⁴ in magnitude exactly if its units are not below that. -/
theorem tenThousandth_le_iff :
    1 / 10 ^ 4 ≤ |((signed negative magnitude : ℤ) : ℚ) / unitsPerOne| ↔ unitsPerOne ≤ magnitude * tenTo 4 := by
  have hone := unitsPerOne_cast_pos
  have hten : ((tenTo 4 : ℕ) : ℚ) = 10 ^ 4 := by norm_num [tenTo]
  rw [abs_signed_div, div_le_div_iff₀ (by positivity) hone, one_mul, ← hten]
  exact_mod_cast Iff.rfl

end

end Binary64

/-! ## Leading integers -/

open Binary64 (unitsPerOne units signed truncateUnits)

/-- The integer part of what lies below one is no digit other than zero. -/
theorem not_isIntegerPart_signed {q : ℚ} {d : ℕ} {negative : Bool} (hd : 1 ≤ d) (hlt : |q| < 1) :
    ¬IsIntegerPart (signed negative d) q := by
  intro h
  have habs : |((signed negative d : ℤ) : ℚ)| = d := by cases negative <;> simp [signed]
  have hle : (d : ℚ) ≤ |q| := habs ▸ h.abs_le
  have hdigit : (1 : ℚ) ≤ d := Nat.one_le_cast.2 hd
  linarith

theorem digit_lt_tenTo {d : ℕ} (h : d ≤ 9) : d < tenTo digitLimit :=
  (Nat.lt_succ_of_le h).trans_le (Binary64.tenTo_le_tenTo (by decide : 1 ≤ digitLimit))

namespace Value

/-- A value has the leading integer of its text: the numeral that leads it, with a minus sign or without one. -/
theorem parseInt_of_leadsWith [World] {v : Value} {t : Text} {n : ℕ} {negative : Bool} (h : v.toText = .ok (Text.minus negative ++ t))
    (ht : t.LeadsWith n) (hn : n < tenTo digitLimit) : v.parseInt = .ok (signed negative n) := by
  obtain ⟨rest, rfl, hrest⟩ := ht
  have hwritten := Numeral.written_numeral n
  have hlength : (Text.numeral n).length ≤ digitLimit := (Text.length_numeral_le_iff (by decide)).2 hn
  have hsign := Text.minus_sign negative
  have htext : v.leadingInteger? = (text (Text.minus negative ++ (Text.numeral n ++ rest))).leadingInteger? := by
    rw [leadingInteger?, h]
    rfl
  have hread := leadingInteger?_text (nofun : Text.Blank []) hsign.1 hwritten.whole_ne hwritten.whole_digits hrest
  rw [List.nil_append, hsign.2, readInteger, if_neg (Nat.not_lt.2 hlength), Text.numeralValue_numeral] at hread
  rw [parseInt, htext, hread]
  rfl

variable (negative : Bool) (rank : Fin Binary64.rankCount)

/-- The integer part of a number is that of its magnitude with its sign. -/
theorem truncateUnits_signed (magnitude : ℕ) :
    truncateUnits (signed negative magnitude) = signed negative (magnitude / unitsPerOne) := by
  have hdiv : ((magnitude / unitsPerOne : ℕ) : ℤ) = (magnitude : ℤ).tdiv unitsPerOne := Int.ofNat_tdiv _ _
  cases negative with
  | false => exact hdiv.symm
  | true =>
    rw [truncateUnits, signed, if_pos rfl, signed, if_pos rfl, Int.neg_tdiv, hdiv]

/-- A number is an integer exactly if its magnitude is. -/
theorem isInteger_finite : (Binary64.finite negative rank).isInteger = decide (units rank % unitsPerOne = 0) := by
  have hdvd : (signed negative (units rank)) % (unitsPerOne : ℤ) = 0 ↔ units rank % unitsPerOne = 0 := by
    rw [← Int.dvd_iff_emod_eq_zero, ← Nat.dvd_iff_mod_eq_zero, ← Int.natCast_dvd_natCast]
    cases negative with
    | false => rfl
    | true => rw [signed, if_pos rfl, Int.dvd_neg]
  exact decide_eq_decide.2 hdvd

/-- The text of an integer is its numeral, and the text of another number is its shortest decimal. -/
theorem toText_finite [World] : (number (.float (.finite negative rank))).toText =
    if units rank % unitsPerOne = 0 then (Value.int (signed negative (units rank / unitsPerOne))).toText
    else .ok (Binary64.toText (.finite negative rank)) := by
  rw [← truncateUnits_signed]
  show (if (Binary64.finite negative rank).isInteger then _ else _) = _
  rw [isInteger_finite]
  simp only [decide_eq_true_eq]
  rfl

variable {rank}

/-- Of a finite number that is zero or not below 10⁻⁴ in magnitude, the leading integer of the text is the integer part. -/
theorem parseInt_of_le [World] (h : units rank = 0 ∨ unitsPerOne ≤ units rank * tenTo 4) :
    (number (.float (.finite negative rank))).parseInt = .ok (signed negative (units rank / unitsPerOne)) := by
  have hsize : units rank / unitsPerOne < tenTo digitLimit := (Nat.div_le_self _ _).trans_lt (Binary64.units_lt rank)
  by_cases hmod : units rank % unitsPerOne = 0
  · have htext := toText_finite negative rank
    rw [if_pos hmod] at htext
    generalize hz : signed negative (units rank / unitsPerOne) = z at htext ⊢
    have habs : z.natAbs = units rank / unitsPerOne := hz ▸ Binary64.natAbs_signed _ _
    have hlength : (Text.numeral z.natAbs).length ≤ digitLimit := (Text.length_numeral_le_iff (by decide)).2 (habs ▸ hsize)
    rw [toText_int hlength] at htext
    rw [parseInt_of_leadsWith htext ⟨[], (List.append_nil _).symm, nofun⟩ (habs ▸ hsize), Text.signed_natAbs]
  · obtain ⟨t, ht, hleads, -⟩ := Binary64.toText_leads negative hmod
    have hle := h.resolve_left fun hzero => hmod (by rw [hzero]; exact Nat.zero_mod _)
    have htext : (number (.float (.finite negative rank))).toText = .ok (Text.minus negative ++ t) := by
      rw [toText_finite, if_neg hmod, ht]
    exact parseInt_of_leadsWith htext (hleads hle) hsize

/-- Of any other finite number it is the first digit of the shortest decimal. -/
theorem parseInt_of_lt [World] (hpos : 0 < units rank) (h : units rank * tenTo 4 < unitsPerOne) : ∃ (d : ℕ) (t : Text), 1 ≤ d ∧ d ≤ 9 ∧
    t.LeadsWith d ∧ (number (.float (.finite negative rank))).toText = .ok (Text.minus negative ++ t) ∧
    (number (.float (.finite negative rank))).parseInt = .ok (signed negative d) := by
  have hmod : units rank % unitsPerOne ≠ 0 := by
    rw [Nat.mod_eq_of_lt ((Nat.le_mul_of_pos_right _ (Binary64.tenTo_pos 4)).trans_lt h)]
    exact hpos.ne'
  obtain ⟨t, ht, -, hleads⟩ := Binary64.toText_leads negative hmod
  obtain ⟨d, hone, hnine, hd⟩ := hleads h
  have htext : (number (.float (.finite negative rank))).toText = .ok (Text.minus negative ++ t) := by
    rw [toText_finite, if_neg hmod, ht]
  exact ⟨d, t, hone, hnine, hd, htext, parseInt_of_leadsWith htext hd (digit_lt_tenTo hnine)⟩

end Value

/-- Both functions that read the leading integer of a text give the integer part of a finite number exactly if it is zero or not below
10⁻⁴ in magnitude. From any other finite number they read the first digit, from one to nine, of a text with an exponent. -/
theorem Builtin.parseInt_finite [World] : ∀ f ∈ [Builtin.parseInt, .integerParseInt], ∀ (x : Binary64) (q : ℚ), x.toRat? = some q →
    ((∃ z, IsIntegerPart z q ∧ apply f [.number (.float x)] = .ok (.int z)) ↔ q = 0 ∨ 1 / 10 ^ 4 ≤ |q|) ∧
    (q ≠ 0 → |q| < 1 / 10 ^ 4 → ∃ (d : ℕ) (t : Text), 1 ≤ d ∧ d ≤ 9 ∧ t.LeadsWith d ∧
      (Value.number (.float x)).toText = .ok (Text.minus (q < 0) ++ t) ∧
      apply f [.number (.float x)] = .ok (.int (signed (q < 0) d))) := by
  intro f hf x q hq
  have happly : apply f [.number (.float x)] = Value.int <$> (Value.number (.float x)).parseInt := by
    rcases List.mem_pair.1 hf with rfl | rfl <;> rfl
  rw [happly]
  obtain ⟨u, hu, rfl⟩ := Option.map_eq_some_iff.1 hq
  cases x with
  | nan | infinite => cases hu
  | finite negative rank =>
    cases hu
    rw [← not_le, ne_eq, Binary64.tenThousandth_le_iff, Binary64.signed_div_eq_zero_iff]
    by_cases h : units rank = 0 ∨ unitsPerOne ≤ units rank * tenTo 4
    · rw [Value.parseInt_of_le negative h]
      exact ⟨iff_of_true ⟨_, (IsIntegerPart.natCast_div _ _).signed negative, rfl⟩ h, fun hne hlt => absurd h (not_or.2 ⟨hne, hlt⟩)⟩
    · obtain ⟨hne, hlt⟩ := not_or.1 h
      have hpos : 0 < units rank := Nat.pos_of_ne_zero hne
      obtain ⟨d, t, hone, hnine, hd, htext, hparse⟩ := Value.parseInt_of_lt negative hpos (Nat.not_le.1 hlt)
      have hsign : decide (((signed negative (units rank) : ℤ) : ℚ) / unitsPerOne < 0) = negative := by
        simp only [Binary64.signed_div_neg_iff negative hpos, Bool.decide_eq_true]
      rw [hsign, hparse]
      refine ⟨iff_of_false ?_ h, fun _ _ => ⟨d, t, hone, hnine, hd, htext, rfl⟩⟩
      rintro ⟨z, hz, hvalue⟩
      cases hvalue
      have hlt := not_le.1 (mt (Binary64.tenThousandth_le_iff negative).1 hlt)
      exact not_isIntegerPart_signed hone (hlt.trans (by norm_num)) hz

/-- The number nearest to 10⁻⁷. -/
def Binary64.tenMillionth : Binary64 := .finite false ⟨4502148214488346440, by decide⟩

/-- The number nearest to 10⁻⁷ is not zero and lies below 10⁻⁴. -/
theorem Binary64.exists_toRat?_tenMillionth : ∃ q : ℚ, tenMillionth.toRat? = some q ∧ q ≠ 0 ∧ |q| < 1 / 10 ^ 4 := by
  refine ⟨_, rfl, ?_, ?_⟩
  · rw [ne_eq, signed_div_eq_zero_iff]
    decide +kernel
  · rw [← not_le, tenThousandth_le_iff]
    decide +kernel

open scoped World in
/-- Two and a half has the integer part two, and 10⁻⁷ has the first digit one. -/
theorem Builtin.parseInt_finite_two_and_half :
    (∃ z, IsIntegerPart z (5 / 2) ∧ apply .parseInt [.number (.float .twoAndHalf)] = .ok (.int z)) ∧
    ∃ q : ℚ, Binary64.tenMillionth.toRat? = some q ∧ ∃ (d : ℕ) (t : Text), 1 ≤ d ∧ d ≤ 9 ∧ t.LeadsWith d ∧
      (Value.number (.float .tenMillionth)).toText = .ok (Text.minus (q < 0) ++ t) ∧
      apply .integerParseInt [.number (.float .tenMillionth)] = .ok (.int (signed (q < 0) d)) := by
  obtain ⟨q, hq, hne, hlt⟩ := Binary64.exists_toRat?_tenMillionth
  have hle : 1 / 10 ^ 4 ≤ |(5 / 2 : ℚ)| := by norm_num [abs_of_pos]
  exact ⟨(parseInt_finite _ (by decide) _ _ Binary64.toRat?_twoAndHalf).1.2 (.inr hle), q, hq,
    (parseInt_finite _ (by decide) _ _ hq).2 hne hlt⟩

open scoped World in
/-- Not every finite number has its integer part read from its text: 10⁻⁷ is written as `1e-07`. -/
theorem Builtin.not_parseInt_integerPart :
    ¬∀ (x : Binary64) (q : ℚ), x.toRat? = some q → ∃ z, IsIntegerPart z q ∧ apply .parseInt [.number (.float x)] = .ok (.int z) := by
  intro h
  have htext : (Value.number (.float .tenMillionth)).toText = .ok "1e-07" := by
    rw [Binary64.tenMillionth, Value.toText_finite, if_neg (by decide +kernel)]
    exact congrArg Except.ok (by decide +kernel)
  have hleads : Text.LeadsWith 1 "1e-07" := by
    refine ⟨"e-07", rfl, fun c hc => ?_⟩
    cases hc
    rfl
  have hparse : (Value.number (.float .tenMillionth)).parseInt = .ok (signed false 1) :=
    Value.parseInt_of_leadsWith htext hleads (digit_lt_tenTo (by decide))
  obtain ⟨q, hq, -, hlt⟩ := Binary64.exists_toRat?_tenMillionth
  obtain ⟨z, hz, happly⟩ := h _ q hq
  rw [apply, hparse] at happly
  cases happly
  exact not_isIntegerPart_signed (Nat.le_refl 1) (hlt.trans (by norm_num)) hz

end Stencil
