import Stencil.Proofs.Comparison
import Stencil.Proofs.Grammar.Print
import Stencil.Proofs.Rounding

/-!
# Dividing integers

A quotient of integers is rounded to binary64 and cut to its integer part when it is assigned, while a remainder is exact. So the
two fit together as long as rounding passes no integer, and do not where it does (`Machine.assigned_division`).
-/

namespace Stencil

/-! ## Integer parts of quotients -/

/-- The quotient toward zero is the one that makes the dividend again with the remainder. -/
theorem quotient_iff {a b : ℤ} (hb : b ≠ 0) (z : ℤ) : z * b + a.tmod b = a ↔ z = a.tdiv b := by
  have hexact : a.tdiv b * b + a.tmod b = a := Int.tdiv_mul_add_tmod a b
  calc z * b + a.tmod b = a ↔ z * b + a.tmod b = a.tdiv b * b + a.tmod b := by rw [hexact]
    _ ↔ z * b = a.tdiv b * b := add_left_inj _
    _ ↔ z = a.tdiv b := mul_left_inj' hb

/-- The magnitudes of two integers with the sign of their quotient are the quotient. -/
theorem signed_div (a b : ℤ) : (Binary64.signed ((a < 0) != (b < 0)) a.natAbs : ℚ) / b.natAbs = (a : ℚ) / b := by
  rw [Nat.cast_natAbs, Binary64.signed]
  by_cases ha : a < 0 <;> by_cases hb : b < 0
  · simp [ha, hb, abs_of_neg, neg_div, div_neg]
  · simp [ha, hb, abs_of_neg, abs_of_nonneg (not_lt.1 hb)]
  · simp [ha, hb, abs_of_neg, abs_of_nonneg (not_lt.1 ha), neg_div, div_neg]
  · simp [ha, hb, abs_of_nonneg (not_lt.1 ha), abs_of_nonneg (not_lt.1 hb)]

/-- The quotient toward zero has the sign of the quotient and the quotient of the magnitudes. -/
theorem tdiv_eq_signed (a b : ℤ) : a.tdiv b = Binary64.signed ((a < 0) != (b < 0)) (a.natAbs / b.natAbs) := by
  have hmagnitude : ((a.natAbs / b.natAbs : ℕ) : ℤ) = (a.natAbs : ℤ).tdiv b.natAbs := Int.ofNat_tdiv _ _
  rw [Binary64.signed, hmagnitude]
  by_cases ha : a < 0 <;> by_cases hb : b < 0
  · have habs : (a.natAbs : ℤ) = -a ∧ (b.natAbs : ℤ) = -b := by omega
    simp [ha, hb, habs.1, habs.2]
  · have habs : (a.natAbs : ℤ) = -a ∧ (b.natAbs : ℤ) = b := by omega
    simp [ha, hb, habs.1, habs.2]
  · have habs : (a.natAbs : ℤ) = a ∧ (b.natAbs : ℤ) = -b := by omega
    simp [ha, hb, habs.1, habs.2]
  · have habs : (a.natAbs : ℤ) = a ∧ (b.natAbs : ℤ) = b := by omega
    simp [ha, hb, habs.1, habs.2]

namespace IsIntegerPart

variable {z : ℤ} {q : ℚ}

/-- The integer part of a magnitude has the sign of the number. -/
theorem signed {k n d : ℕ} (h : IsIntegerPart k ((n : ℚ) / d)) (negative : Bool) :
    IsIntegerPart (Binary64.signed negative k) ((Binary64.signed negative n : ℚ) / d) := by
  cases negative with
  | false => simpa [Binary64.signed] using h
  | true => simpa [Binary64.signed, neg_div] using h.neg

/-- Division of integers toward zero gives the integer part of the quotient. -/
theorem int_tdiv (a b : ℤ) : IsIntegerPart (a.tdiv b) ((a : ℚ) / b) := by
  rw [tdiv_eq_signed, ← signed_div]
  exact (natCast_div a.natAbs b.natAbs).signed _

/-- The integers up to a magnitude are those up to its integer part. -/
theorem le_abs_iff (h : IsIntegerPart z q) (k : ℤ) : (k : ℚ) ≤ |q| ↔ k ≤ |z| := by
  constructor
  · intro hk
    have hlt : (k : ℚ) < |(z : ℚ)| + 1 := hk.trans_lt h.abs_lt
    have hlt : k < |z| + 1 := by exact_mod_cast hlt
    omega
  · intro hk
    have hk : (k : ℚ) ≤ |(z : ℚ)| := by exact_mod_cast hk
    exact hk.trans h.abs_le

/-- Two numbers on the same side of zero have the same integer part exactly if they have the same integers up to their
magnitudes. -/
theorem eq_iff {z' : ℤ} {q' : ℚ} (h : IsIntegerPart z q) (h' : IsIntegerPart z' q') (hside : 0 ≤ q * q') :
    z = z' ↔ ∀ k : ℤ, (k : ℚ) ≤ |q| ↔ (k : ℚ) ≤ |q'| := by
  simp only [h.le_abs_iff, h'.le_abs_iff]
  constructor
  · rintro rfl k
    rfl
  · intro hk
    have habs : |z| = |z'| := le_antisymm ((hk _).1 le_rfl) ((hk _).2 le_rfl)
    rcases abs_eq_abs.1 habs with heq | heq
    · exact heq
    · -- Integers that differ in sign would be the parts of numbers on different sides.
      rcases h.sign with hzero | hpos
      · rw [hzero] at heq ⊢
        exact neg_eq_zero.1 heq.symm ▸ rfl
      · rcases h'.sign with hzero | hpos'
        · rw [heq, hzero, neg_zero]
        · rw [heq, Int.cast_neg, neg_mul] at hpos
          linarith [mul_pos hpos hpos', mul_nonneg (mul_self_nonneg (z' : ℚ)) hside]

end IsIntegerPart

/-! ## Rounded quotients of integers -/

namespace Number

open Binary64 (overflowBound unitsPerOne units nearestRank)

variable {a b : ℤ}

/-- A division that rounds the quotient of integers, and fails where that is rounded to an infinity. -/
def RoundsQuotients (divide : ℤ → ℤ → Except Fault Number) : Prop :=
  ∀ m n x, Binary64.ofRatio ((m < 0) != (n < 0)) m.natAbs n.natAbs = x →
    (∀ negative, x = .infinite negative → divide m n = .error .quotientTooLarge) ∧
      (x.isFinite = true → divide m n = .ok (float x))

/-- Integers are divided like that. -/
theorem divideInts_rounds : RoundsQuotients divideInts := by
  delta divideInts
  -- From here on the goal is about the unfolded function. To unfold it at its arguments would be to evaluate their quotient.
  refine id ?_
  intro m n x hx
  beta_reduce
  rw [hx]
  constructor
  · rintro negative rfl
    rfl
  · intro hfinite
    cases x with
    | nan | infinite => cases hfinite
    | finite => rfl

/-- The magnitude of a quotient lies below a bound exactly if that of the dividend lies below as many divisors. -/
theorem abs_div_lt_iff (bound : ℕ) (hb : b ≠ 0) : |(a : ℚ) / b| < bound ↔ a.natAbs < bound * b.natAbs := by
  have hpos : (0 : ℚ) < b.natAbs := Nat.cast_pos.2 (Int.natAbs_pos.2 hb)
  have habs : |(a : ℚ) / b| = (a.natAbs : ℚ) / b.natAbs := by
    rw [abs_div, Nat.cast_natAbs, Nat.cast_natAbs, Int.cast_abs, Int.cast_abs]
  rw [habs, div_lt_iff₀ hpos, ← Nat.cast_mul, Nat.cast_lt]

/-- A quotient of integers below the bound is the binary64 number nearest to it. That has the same integer part if the quotient is
far enough from the next integer away from zero for its size. -/
theorem divideInts_of_lt (hb : b ≠ 0) (hlt : |(a : ℚ) / b| < overflowBound) :
    ∃ (x : Binary64) (v : ℚ), divideInts a b = .ok (.float x) ∧ x.IsNearest v (a / b) ∧
      (a.natAbs ≤ 2 * Binary64.binade * (b.natAbs - a.natAbs % b.natAbs) → IsIntegerPart (a.tdiv b) v) := by
  have hd : 0 < b.natAbs := Int.natAbs_pos.2 hb
  have hnearest := Binary64.isNearest_ofRatio ((a < 0) != (b < 0)) hd ((abs_div_lt_iff overflowBound hb).1 hlt)
  rw [signed_div] at hnearest
  refine ⟨_, _, (divideInts_rounds a b _ rfl).2 hnearest.isFinite, hnearest, fun hfar => ?_⟩
  obtain ⟨hle, hgt⟩ := Binary64.integerPart_nearestRank hd hfar
  have hquotient : units (nearestRank a.natAbs b.natAbs) / unitsPerOne = a.natAbs / b.natAbs :=
    Nat.div_eq_of_lt_le hle hgt
  rw [tdiv_eq_signed, ← hquotient]
  exact (IsIntegerPart.natCast_div _ _).signed _

theorem divideInts_of_le (hb : b ≠ 0) (hle : overflowBound ≤ |(a : ℚ) / b|) : divideInts a b = .error .quotientTooLarge := by
  have hd : 0 < b.natAbs := Int.natAbs_pos.2 hb
  have hge : overflowBound * b.natAbs ≤ a.natAbs := Nat.not_lt.1 (mt (abs_div_lt_iff overflowBound hb).2 (not_lt.2 hle))
  exact (divideInts_rounds a b _ rfl).1 _ (Binary64.ofRatio_infinite _ hd hge)

theorem isZero_int (hb : b ≠ 0) : (Number.int b).isZero = false := decide_eq_false hb

theorem div_int (hb : b ≠ 0) : div (.int a) (.int b) = divideInts a b := by
  rw [div, if_neg (ne_true_of_eq_false (isZero_int hb))]

end Number

/-! ## Operations on variables -/

section

variable {x y : Text} {a b : ℤ}

namespace BinaryOp

/-- An arithmetic operator makes of two integers what its calculation makes of them. -/
theorem calculate_int (op : BinaryOp) (calculation : Number → Number → Except Number.Fault Number) :
    op.calculate calculation (.int a) (.int b) = Value.number <$> Fault.ofNumber (calculation (.int a) (.int b)) := rfl

theorem divide_apply_int [World] (hb : b ≠ 0) :
    divide.apply (.int a) (.int b) = Value.number <$> Fault.ofNumber (Number.divideInts a b) := by
  rw [apply, calculate_int, Number.div_int hb]

theorem remainder_apply_int [World] (hb : b ≠ 0) : remainder.apply (.int a) (.int b) = .ok (.int (a.tmod b)) := by
  rw [apply, calculate_int, Number.rem_int hb]
  rfl

end BinaryOp

namespace Expr

open Lexeme (Form)

variable {context : Context} {v w : Value}

/-- An operation on two variables as it is written, with blanks around the operator. -/
def operation (op : BinaryOp) (x y : Text) : Text := '$' :: (x ++ " " ++ op.symbol ++ " $" ++ y)

/-- An operation on two variables is read as that. -/
theorem parse_operation (hx : Text.isName x = true) (hy : Text.isName y = true) (op : BinaryOp) :
    parse (operation op x y) = .ok (.binary op (.var x) (.var y)) := by
  have hforms : forms (.binary op (.var x) (.var y)) = [⟨.var, '$' :: x⟩, ⟨.symbol, op.symbol⟩, ⟨.var, '$' :: y⟩] := by
    cases op <;> rfl
  have hspelled := (Printable.binary op (.var hx) (.var hy)).spelledBy.expression
  rw [hforms] at hspelled
  have hspaced : Form.Spaced [⟨.var, '$' :: x⟩, ⟨.symbol, op.symbol⟩, ⟨.var, '$' :: y⟩]
      ('$' :: x ++ ' ' :: (op.symbol ++ ' ' :: ('$' :: y ++ []))) :=
    .form (.blank rfl (.form (.blank rfl (.form .nil))))
  have htext : operation op x y = '$' :: x ++ ' ' :: (op.symbol ++ ' ' :: ('$' :: y ++ [])) := by simp [operation]
  rw [htext]
  exact parse_of_spaced hspelled.derives (List.forall_mem_map.2 hspelled.stands) hspaced

/-- An operation on two variables has the value that its operator makes of theirs. -/
theorem evaluate_operation [World] (hx : Text.isName x = true) (hy : Text.isName y = true) (op : BinaryOp)
    (hv : Value.lookup x context = .ok v) (hw : Value.lookup y context = .ok w) :
    evaluate context (operation op x y) = op.apply v w := by
  unfold evaluate
  rw [parse_operation hx hy]
  exact eval_binary op hv hw

end Expr

/-- An assignment as it is written, with blanks around the equals sign. -/
def Assignment.toBody (assignment : Assignment) : Text := '$' :: (assignment.name ++ " = " ++ assignment.expression)

/-- What is written as an assignment is read as that. -/
theorem Assignment.ofBody?_toBody {assignment : Assignment} (hname : Text.isName assignment.name = true)
    (hstarts : ∃ c ∈ assignment.expression.head?, Text.isBlank c = false) : ofBody? assignment.toBody = some assignment := by
  have hblank : Text.Blank [' '] := by decide
  have hbody : assignment.toBody = [] ++ '$' :: (assignment.name ++ ([' '] ++ '=' :: ([' '] ++ assignment.expression))) := by
    simp [toBody]
  exact ofBody?_of_layout ⟨[], assignment.name, [' '], [' '], assignment.expression, nofun, hname, hblank, hblank, hstarts, hbody⟩

namespace Machine

open Context (reservedName)

variable {m : Machine} {target : Text} {v w value stored : Value}

/-- An operation on two variables is assigned: its value is stored. -/
theorem step_operation [World] (ha : m.active = true) (htarget : Text.isName target = true) (hreserved : target ≠ reservedName)
    (hx : Text.isName x = true) (hy : Text.isName y = true) (hv : Value.lookup x m.context = .ok v)
    (hw : Value.lookup y m.context = .ok w) {op : BinaryOp} (happly : op.apply v w = .ok value)
    (hstored : value.stored = .ok stored) (o : Nat) :
    m.step ⟨o, .set (Assignment.toBody ⟨target, Expr.operation op x y⟩)⟩ =
      .ok { m with context := m.context.assign target stored } :=
  step_set ha (Assignment.ofBody?_toBody htarget ⟨'$', rfl, rfl⟩) hreserved
    ((Expr.evaluate_operation hx hy op hv hw).trans happly) hstored

theorem lookup_assign_of_ne (hne : x ≠ target) (stored : Value) (context : Context) :
    Value.lookup x (context.assign target stored) = Value.lookup x context := by
  rw [Value.lookup, Value.lookup, Context.get?_assign_of_ne hne]

/-- What is left of dividing two variables with integers and taking their remainder. The remainder is exact. The quotient is the
integer part of the binary64 number nearest to the exact quotient, and an exact quotient from halfway behind the last of those
numbers on is refused, with nothing changed. So the quotient is exact, and makes the dividend again with the remainder, exactly if
rounding passes no integer: for instance, if the exact quotient is far enough from the next integer away from zero. -/
theorem assigned_division [World] {q r : Text} (ha : m.active = true)
    (hnames : ∀ name ∈ [x, y, q, r], Text.isName name = true) (hq : q ∉ [reservedName, x, y]) (hr : r ∉ [reservedName, q])
    (hx : Value.lookup x m.context = .ok (.int a)) (hy : Value.lookup y m.context = .ok (.int b)) (hb : b ≠ 0) (o o' : Nat) :
    let quotientOf := Expr.operation .divide x y
    let tokens : List Token :=
      [⟨o, .set (Assignment.toBody ⟨q, quotientOf⟩)⟩, ⟨o', .set (Assignment.toBody ⟨r, Expr.operation .remainder x y⟩)⟩]
    (|(a : ℚ) / b| < Binary64.overflowBound → ∃ (rounded : Binary64) (nearest : ℚ) (quotient : ℤ) (m' : Machine),
      rounded.IsNearest nearest (a / b) ∧ IsIntegerPart quotient nearest ∧ m.feed tokens = (m', none) ∧
      Entries.get? q m'.context = some (.int quotient) ∧ Entries.get? r m'.context = some (.int (a.tmod b)) ∧
      (quotient * b + a.tmod b = a ↔ quotient = a.tdiv b) ∧
      (quotient = a.tdiv b ↔ ∀ k : ℤ, (k : ℚ) ≤ |(a : ℚ) / b| ↔ (k : ℚ) ≤ |nearest|) ∧
      (a.natAbs ≤ 2 ^ 53 * (b.natAbs - a.natAbs % b.natAbs) → quotient = a.tdiv b)) ∧
    (Binary64.overflowBound ≤ |(a : ℚ) / b| →
      m.feed tokens = (m, some (.evaluation (.arithmetic .quotientTooLarge) (some quotientOf)))) := by
  intro quotientOf tokens
  simp only [List.forall_mem_cons] at hnames
  obtain ⟨hxName, hyName, hqName, hrName, -⟩ := hnames
  simp only [List.mem_cons, not_or, List.not_mem_nil, not_false_eq_true, and_true] at hq hr
  obtain ⟨hqReserved, hqx, hqy⟩ := hq
  obtain ⟨hrReserved, hrq⟩ := hr
  constructor
  · intro hlt
    obtain ⟨rounded, nearest, hdivide, hnearest, hfar⟩ := Number.divideInts_of_lt hb hlt
    obtain ⟨quotient, hpart, hstored⟩ := Value.stored_of_toRat? hnearest.toRat?_eq
    have hdivide : BinaryOp.divide.apply (.int a) (.int b) = .ok (.number (.float rounded)) := by
      rw [BinaryOp.divide_apply_int hb, hdivide]
      rfl
    have hfirst := step_operation ha hqName hqReserved hxName hyName hx hy hdivide hstored o
    have hx' := (lookup_assign_of_ne (Ne.symm hqx) (.int quotient) m.context).trans hx
    have hy' := (lookup_assign_of_ne (Ne.symm hqy) (.int quotient) m.context).trans hy
    have hsecond := step_operation (m := { m with context := m.context.assign q (.int quotient) }) ha hrName hrReserved
      hxName hyName hx' hy' (BinaryOp.remainder_apply_int hb) rfl o'
    have hfeed := (feed_append (feed_singleton hfirst) _).trans (feed_singleton hsecond)
    refine ⟨rounded, nearest, quotient, _, hnearest, hpart, hfeed, ?_, Context.get?_assign_self hrReserved .., ?_, ?_, ?_⟩
    · exact (Context.get?_assign_of_ne (Ne.symm hrq) ..).trans (Context.get?_assign_self hqReserved ..)
    · exact quotient_iff hb quotient
    · rw [eq_comm]
      exact (IsIntegerPart.int_tdiv a b).eq_iff hpart hnearest.mul_nonneg
    · have hpow : 2 ^ 53 = 2 * Binary64.binade := rfl
      rw [hpow]
      exact fun h => hpart.unique (hfar h)
  · intro hle
    have hdivide : BinaryOp.divide.apply (.int a) (.int b) = .error (.arithmetic .quotientTooLarge) := by
      rw [BinaryOp.divide_apply_int hb, Number.divideInts_of_le hb hle]
      rfl
    have hvalue : evaluate m.context quotientOf = .error (.arithmetic .quotientTooLarge) :=
      (Expr.evaluate_operation hxName hyName .divide hx hy).trans hdivide
    have hfails := step_set_error (o := o) ha (Assignment.ofBody?_toBody hqName ⟨'$', rfl, rfl⟩) hqReserved
      (bind_error_iff.2 (.inl hvalue))
    exact feed_append_error (feed_singleton_error hfails) _

open scoped World in
/-- Minus seven divided by two, and a quotient that is too large. -/
theorem assigned_division_negative :
    let m : Machine :=
      { start [] [] with context := [("a".toList, .int (-7)), ("b".toList, .int 2), ("n".toList, .int (2 ^ 1025))] }
    (m.active = true ∧ |((-7 : ℤ) : ℚ) / (2 : ℤ)| < Binary64.overflowBound ∧
      ∃ m', m.feed [⟨0, .set "$q = $a / $b".toList⟩, ⟨0, .set "$r = $a % $b".toList⟩] = (m', none) ∧
        Entries.get? "q".toList m'.context = some (.int (-3)) ∧ Entries.get? "r".toList m'.context = some (.int (-1))) ∧
    Binary64.overflowBound ≤ |((2 ^ 1025 : ℤ) : ℚ) / (2 : ℤ)| ∧
      m.feed [⟨0, .set "$q = $n / $b".toList⟩, ⟨0, .set "$r = $n % $b".toList⟩] =
        (m, some (.evaluation (.arithmetic .quotientTooLarge) (some "$n / $b".toList))) := by
  intro m
  have hsmall : |((-7 : ℤ) : ℚ) / (2 : ℤ)| < Binary64.overflowBound :=
    (Number.abs_div_lt_iff _ two_ne_zero).2 (by decide +kernel)
  have hlarge : Binary64.overflowBound ≤ |((2 ^ 1025 : ℤ) : ℚ) / (2 : ℤ)| :=
    not_lt.1 (mt (Number.abs_div_lt_iff _ two_ne_zero).1 (by decide +kernel))
  have hnames : ∀ x ∈ [['a'], ['n']], ∀ name ∈ [x, ['b'], ['q'], ['r']], Text.isName name = true := by decide
  obtain ⟨_, _, quotient, m', -, -, hfeed, hq, hr, -, -, hexact⟩ :=
    (assigned_division (m := m) (a := -7) (b := 2) (x := ['a']) (y := ['b']) (q := ['q']) (r := ['r']) rfl
      (hnames _ (by decide)) (by decide) (by decide) rfl rfl two_ne_zero 0 0).1 hsmall
  have hquotient : quotient = -3 := hexact (by decide)
  subst hquotient
  exact ⟨⟨rfl, hsmall, m', hfeed, hq, hr⟩, hlarge,
    (assigned_division (m := m) (a := 2 ^ 1025) (b := 2) (x := ['n']) (y := ['b']) (q := ['q']) (r := ['r']) rfl
      (hnames _ (by decide)) (by decide) (by decide) rfl rfl two_ne_zero 0 0).2 hlarge⟩

open scoped World in
/-- The first integer that no binary64 number is equal to, divided by one: quotient and remainder do not make it again. -/
theorem assigned_division_unrepresentable :
    let m : Machine := { start [] [] with context := [("a".toList, .int 9007199254740993), ("b".toList, .int 1)] }
    ∃ m', m.feed [⟨0, .set "$q = $a / $b".toList⟩, ⟨0, .set "$r = $a % $b".toList⟩] = (m', none) ∧
      Entries.get? "q".toList m'.context = some (.int 9007199254740992) ∧
      Entries.get? "r".toList m'.context = some (.int 0) ∧
      (9007199254740993 : ℤ).tdiv 1 ≠ 9007199254740992 ∧ (9007199254740992 * 1 + 0 : ℤ) ≠ 9007199254740993 := by
  intro m
  let x : Binary64 := .finite false ⟨1076 * Binary64.binade, by decide⟩
  have hrounded : Binary64.ofRatio (((9007199254740993 : ℤ) < 0) != ((1 : ℤ) < 0)) (9007199254740993 : ℤ).natAbs
      (1 : ℤ).natAbs = x := by
    decide +kernel
  have hunits : Binary64.truncateUnits (Binary64.signed false (Binary64.units (1076 * Binary64.binade))) = 9007199254740992 := by
    decide +kernel
  have hfinite : x.isFinite = true := rfl
  have hdivide : BinaryOp.divide.apply (.int 9007199254740993) (.int 1) = .ok (.number (.float x)) := by
    rw [BinaryOp.divide_apply_int one_ne_zero, (Number.divideInts_rounds _ _ x hrounded).2 hfinite]
    rfl
  have hstored : (Value.number (.float x)).stored = .ok (.int 9007199254740992) :=
    congrArg (fun z => Except.ok (Value.int z)) hunits
  have hzero : (9007199254740993 : ℤ).tmod 1 = 0 := by decide
  have hremainder : BinaryOp.remainder.apply (.int 9007199254740993) (.int 1) = .ok (.int 0) := by
    rw [BinaryOp.remainder_apply_int one_ne_zero, hzero]
  have hq : ['q'] ≠ reservedName := by decide
  have hr : ['r'] ≠ reservedName := by decide
  have hfirst : m.step ⟨0, .set "$q = $a / $b".toList⟩ =
      .ok { m with context := m.context.assign ['q'] (.int 9007199254740992) } :=
    step_operation (x := ['a']) (y := ['b']) rfl rfl hq rfl rfl rfl rfl hdivide hstored 0
  have hsecond : Machine.step { m with context := m.context.assign ['q'] (.int 9007199254740992) }
      ⟨0, .set "$r = $a % $b".toList⟩ =
      .ok { m with context := (m.context.assign ['q'] (.int 9007199254740992)).assign ['r'] (.int 0) } :=
    step_operation (x := ['a']) (y := ['b']) rfl rfl hr rfl rfl rfl rfl hremainder rfl 0
  exact ⟨_, (feed_append (feed_singleton hfirst) _).trans (feed_singleton hsecond), rfl, rfl, by decide, by decide⟩

end Machine

end

end Stencil
