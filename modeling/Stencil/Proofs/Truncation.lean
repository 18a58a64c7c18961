import Mathlib.Algebra.Order.Floor.Semifield
import Mathlib.Data.Nat.Cast.Order.Field
import Mathlib.Data.Rat.Floor
import Mathlib.Tactic.Linarith
import Mathlib.Tactic.NormNum
import Mathlib.Tactic.Positivity
import Stencil.Proofs.Protection
import Stencil.Proofs.Spacing
import Stencil.Proofs.Storing

/-!
# What variables hold of binary64 numbers

An assignment cuts a finite binary64 number to its integer part (`IsIntegerPart`), refuses one that is not finite and stores every
other value as it is. So what has been assigned to is no binary64 number at any point of a run, and assigning a variable to itself
changes it once at most (`Machine.assigned_truncated`).
-/

namespace Stencil

/-! ## Integer parts -/

/-- An integer is what is left of a rational number that is cut toward zero: it lies no farther from zero, less than one away, and
on the same side unless it is zero. -/
structure IsIntegerPart (z : ℤ) (q : ℚ) : Prop where
  abs_le : |(z : ℚ)| ≤ |q|
  abs_lt : |q| < |(z : ℚ)| + 1
  sign : z = 0 ∨ 0 < z * q

namespace IsIntegerPart

variable {z z' : ℤ} {q : ℚ}

/-- The integer part of the number of opposite sign is the integer of opposite sign. -/
theorem neg (h : IsIntegerPart z q) : IsIntegerPart (-z) (-q) where
  abs_le := by simpa only [Int.cast_neg, abs_neg] using h.abs_le
  abs_lt := by simpa only [Int.cast_neg, abs_neg] using h.abs_lt
  sign := h.sign.imp neg_eq_zero.2 fun hpos => by rwa [Int.cast_neg, neg_mul_neg]

/-- The integer part of a quotient of natural numbers is the quotient without its remainder. -/
theorem natCast_div (n d : ℕ) : IsIntegerPart (n / d : ℕ) ((n : ℚ) / d) := by
  have hfloor : (n / d : ℕ) = ⌊(n : ℚ) / d⌋₊ := (Nat.floor_div_eq_div n d).symm
  have hcast : (((n / d : ℕ) : ℤ) : ℚ) = ((n / d : ℕ) : ℚ) := Int.cast_natCast _
  have hnonneg : (0 : ℚ) ≤ (n : ℚ) / d := by positivity
  constructor
  · rw [hcast, Nat.abs_cast, abs_of_nonneg hnonneg]
    exact Nat.cast_div_le
  · rw [hcast, Nat.abs_cast, abs_of_nonneg hnonneg, hfloor]
    exact Nat.lt_floor_add_one _
  · rcases Nat.eq_zero_or_pos (n / d) with hzero | hpos
    · exact .inl (congrArg Nat.cast hzero)
    · have hpos : (0 : ℚ) < ((n / d : ℕ) : ℚ) := Nat.cast_pos.2 hpos
      rw [hcast]
      exact .inr (mul_pos hpos (hpos.trans_le Nat.cast_div_le))

/-- Division toward zero gives the integer part of a quotient. -/
theorem tdiv (u : ℤ) (d : ℕ) : IsIntegerPart (u.tdiv d) ((u : ℚ) / d) := by
  obtain ⟨n, rfl | rfl⟩ := u.eq_nat_or_neg
  · rw [← Int.ofNat_tdiv, Int.cast_natCast]
    exact natCast_div n d
  · rw [Int.neg_tdiv, ← Int.ofNat_tdiv, Int.cast_neg, neg_div, Int.cast_natCast]
    exact (natCast_div n d).neg

/-- A number has one integer part. -/
theorem unique (h : IsIntegerPart z q) (h' : IsIntegerPart z' q) : z = z' := by
  have habs : |z| = |z'| := by
    have hle : |(z : ℚ)| < |(z' : ℚ)| + 1 := h.abs_le.trans_lt h'.abs_lt
    have hge : |(z' : ℚ)| < |(z : ℚ)| + 1 := h'.abs_le.trans_lt h.abs_lt
    have hle : |z| < |z'| + 1 := by exact_mod_cast hle
    have hge : |z'| < |z| + 1 := by exact_mod_cast hge
    omega
  rcases abs_eq_abs.1 habs with heq | heq
  · exact heq
  · -- Of two integers that differ in sign, one would be on the other side of the number.
    subst heq
    rcases h'.sign with hzero | hpos
    · rw [hzero, neg_zero]
    · rcases h.sign with hzero | hneg
      · exact hzero.trans (neg_eq_zero.1 hzero).symm
      · rw [Int.cast_neg, neg_mul] at hneg
        linarith

end IsIntegerPart

/-! ## Values as they are stored -/

/-- The exact value of a finite number. -/
def Binary64.toRat? (x : Binary64) : Option ℚ := x.toUnits?.map fun u : ℤ => (u : ℚ) / unitsPerOne

namespace Value

variable {v w s : Value}

/-- Whether a value is a binary64 number. -/
def isFloat : Value → Bool
  | number (.float _) => true
  | _ => false

/-- What is no binary64 number is stored as it is. -/
theorem stored_of_not_isFloat (h : v.isFloat = false) : v.stored = .ok v := by
  unfold stored
  split
  · cases h
  · rfl

/-- A binary64 number with an exact value is stored as its integer part. -/
theorem stored_of_toRat? {x : Binary64} {q : ℚ} (h : x.toRat? = some q) :
    ∃ z, IsIntegerPart z q ∧ (number (.float x)).stored = .ok (int z) := by
  obtain ⟨u, hu, rfl⟩ := Option.map_eq_some_iff.1 h
  refine ⟨Binary64.truncateUnits u, .tdiv u Binary64.unitsPerOne, ?_⟩
  simp only [stored, hu]

/-- A number that is not finite is not stored. -/
theorem stored_of_not_isFinite {x : Binary64} (h : x.isFinite = false) :
    (number (.float x)).stored = .error (.notFinite x) := by
  cases x with
  | nan | infinite => rfl
  | finite => cases h

/-- What is stored is no binary64 number. -/
theorem isFloat_stored (h : v.stored = .ok s) : s.isFloat = false := by
  unfold stored at h
  split at h
  · split at h
    · cases h
      rfl
    · cases h
  · rename_i hnot
    cases h
    unfold isFloat
    split
    · exact absurd rfl (hnot _)
    · rfl

/-- A text that spells a number is read once. -/
theorem coerced_coerced (h : v.coerced = .ok w) : w.coerced = .ok w := by
  cases v with
  | text t =>
    obtain ⟨read, hread, h⟩ := bind_ok_iff.1 h
    cases read with
    | some n =>
      cases h
      rfl
    | none =>
      cases h
      simp only [coerced, hread]
      rfl
  | _ =>
    cases h
    rfl

/-- What is stored of a value with its number read is read and stored as it is. -/
theorem settled_of_stored (hv : v.coerced = .ok w) (hw : w.stored = .ok s) : s.coerced = .ok s ∧ s.stored = .ok s := by
  refine ⟨?_, stored_of_not_isFloat (isFloat_stored hw)⟩
  cases hf : w.isFloat with
  | false =>
    rw [stored_of_not_isFloat hf] at hw
    cases hw
    exact coerced_coerced hv
  | true =>
    unfold isFloat at hf
    split at hf
    · simp only [stored] at hw
      split at hw <;> cases hw
      rfl
    · cases hf

end Value

/-! ## References -/

/-- A dollar sign and a name are a reference. -/
theorem Expr.parse_var {name : Text} (h : Text.isName name = true) : parse ('$' :: name) = .ok (.var name) := by
  have hstart : Lexeme.start? '$' name = some (.var, name.length) := by
    have htake : Text.takeName? name = some (name, []) :=
      Text.takeName?_eq_some_iff.2 ⟨(List.append_nil name).symm, h, nofun⟩
    rw [Lexeme.start?_var, htake]
    rfl
  have hscan : Lexeme.scan 0 ('$' :: name) = .ok [⟨.var, '$' :: name, 0⟩] := Lexeme.scan_single rfl hstart
  exact (parse_eq_ok_iff hscan _).2 (.expression (.ofPrimary (.var (l := ⟨.var, '$' :: name, 0⟩) rfl)))

/-- A reference has the value under its name. -/
theorem evaluate_var [World] {name : Text} (h : Text.isName name = true) (context : Context) :
    evaluate context ('$' :: name) = Value.lookup name context := by
  unfold evaluate
  rw [Expr.parse_var h]
  rfl

namespace Machine

variable {m m' : Machine} {body name : Text}

/-! ## Runs -/

/-- The target of a token is the name of an assignment that counts. -/
theorem mem_target?_iff {token : Token} :
    name ∈ m.target? token ↔ m.active = true ∧
      ∃ body expression, token.form = .set body ∧ Assignment.ofBody? body = some ⟨name, expression⟩ := by
  constructor
  · intro h
    unfold target? at h
    split at h
    · rename_i body hform
      split at h
      · rename_i ha
        obtain ⟨⟨target, expression⟩, hb, rfl⟩ := Option.map_eq_some_iff.1 h
        exact ⟨ha, body, expression, hform, hb⟩
      · cases h
    all_goals cases h
  · rintro ⟨ha, body, expression, hform, hb⟩
    simp only [target?, hform, ha, if_true, hb, Option.map_some, Option.mem_some]

/-- What a step has stored under its target is no binary64 number. -/
theorem isFloat_target [World] {token : Token} (hs : m.Steps token m') (hname : name ∈ m.target? token)
    (hn : name ≠ Context.reservedName) : ∃ v, Entries.get? name m'.context = some v ∧ v.isFloat = false := by
  obtain ⟨ha, body, expression, hform, hb⟩ := mem_target?_iff.1 hname
  cases hs with
  | assign _ hassign =>
    cases hform
    obtain ⟨name', expression', hb', hcase⟩ := assign_cases hassign
    rw [hb] at hb'
    cases hb'
    obtain ⟨hreserved, -⟩ | ⟨-, value, stored, -, hstored, rfl⟩ := hcase
    · exact absurd hreserved hn
    · exact ⟨stored, Context.get?_assign_self hn stored m.context, Value.isFloat_stored hstored⟩
  | passSet hpass =>
    rw [ha] at hpass
    cases hpass
  | _ => cases hform

/-- What a run has stored under a name last is no binary64 number. By induction on the tokens: the name is assigned to later, or
what the first token stores under it stays there. -/
theorem isFloat_runTargets [World] {tokens : List Token} (hname : name ∈ m.runTargets tokens) (hn : name ≠ Context.reservedName) :
    ∃ v, Entries.get? name (m.feed tokens).1.context = some v ∧ v.isFloat = false := by
  induction tokens generalizing m with
  | nil => cases hname
  | cons token tokens ih =>
    simp only [runTargets] at hname
    simp only [feed]
    cases hs : m.step token with
    | error e =>
      rw [hs] at hname
      cases hname
    | ok next =>
      rw [hs] at hname
      simp only [List.mem_append, Option.mem_toList] at hname
      by_cases hlater : name ∈ next.runTargets tokens
      · exact ih hlater
      · simp only [get?_feed_of_notMem hlater]
        exact isFloat_target (steps_of_step hs) (hname.resolve_right hlater) hn

/-! ## Single assignments -/

/-- The assignment of a variable to itself is read as one. -/
theorem ofBody?_self (h : Text.isName name = true) :
    Assignment.ofBody? ('$' :: (name ++ " = $" ++ name)) = some ⟨name, '$' :: name⟩ := by
  have hblank : Text.Blank [' '] := by decide
  let l : Assignment.Layout ('$' :: (name ++ " = $" ++ name)) :=
    ⟨[], name, [' '], [' '], '$' :: name, nofun, h, hblank, hblank, ⟨_, rfl, rfl⟩, by simp⟩
  exact Assignment.ofBody?_of_layout l

section

variable [World]

/-- Where an assignment stands matters only if it cannot be read. -/
theorem step_set_offset {a : Assignment} (hb : Assignment.ofBody? body = some a) (m : Machine) (o o' : Nat) :
    m.step ⟨o, .set body⟩ = m.step ⟨o', .set body⟩ := by
  simp only [step, assign, hb]

/-- A variable that has been assigned to itself can be assigned to itself again, and that changes nothing more. -/
theorem step_self_again (h : Text.isName name = true) (o o' : Nat)
    (hs : m.step ⟨o, .set ('$' :: (name ++ " = $" ++ name))⟩ = .ok m') :
    ∃ n, m'.step ⟨o', .set ('$' :: (name ++ " = $" ++ name))⟩ = .ok n ∧ n.context = m'.context := by
  cases steps_of_step hs with
  | passSet ha => exact ⟨m, step_set_of_inactive ha _ _, rfl⟩
  | assign ha hassign =>
    have ha' : m'.active = true := by rw [active, assign_frames hassign]; exact ha
    obtain ⟨name', expression, hb, hcase⟩ := assign_cases hassign
    rw [ofBody?_self h] at hb
    cases hb
    obtain ⟨hreserved, rfl⟩ | ⟨hn, value, stored, hv, hstored, rfl⟩ := hcase
    · -- Both are dropped.
      refine ⟨{ m with log := m.log ++ [.reservedAssignment name] ++ [.reservedAssignment name] }, ?_, rfl⟩
      simp only [step, assign, ha', if_true, ofBody?_self h, if_pos hreserved]
    · have hlookup : Value.lookup name m.context = .ok value := by
        rw [← evaluate_var h]
        exact mapError_ok_iff.1 hv
      obtain ⟨hcoerced, hsettled⟩ := Value.settled_of_stored (mapError_ok_iff.1 hlookup) hstored
      have hagain : evaluate (m.context.assign name stored) ('$' :: name) = .ok stored := by
        rw [evaluate_var h, Value.lookup, Context.get?_assign_self hn, Option.getD_some, hcoerced]
        rfl
      exact ⟨_, step_set ha' (ofBody?_self h) hn hagain hsettled, Context.assign_assign name stored stored m.context⟩

/-- Assigning a variable to itself twice does what doing it once does, whether that fails or not. -/
theorem feed_self_again (h : Text.isName name = true) (m : Machine) (o o' : Nat) :
    let once := m.feed [⟨o, .set ('$' :: (name ++ " = $" ++ name))⟩]
    let twice := once.1.feed [⟨o', .set ('$' :: (name ++ " = $" ++ name))⟩]
    twice.1.context = once.1.context ∧ (once.2 = none → twice.2 = none) := by
  intro once twice
  cases hs : m.step ⟨o, .set ('$' :: (name ++ " = $" ++ name))⟩ with
  | ok m' =>
    have honce : once = (m', none) := feed_singleton hs
    obtain ⟨n, hagain, hcontext⟩ := step_self_again h o o' hs
    have htwice : twice = (n, none) := by
      simp only [twice, honce]
      exact feed_singleton hagain
    rw [honce, htwice]
    exact ⟨hcontext, fun _ => rfl⟩
  | error e =>
    have honce : once = (m, some e) := feed_singleton_error hs
    have htwice : twice = (m, some e) := by
      simp only [twice, honce]
      exact feed_singleton_error ((step_set_offset (ofBody?_self h) m o' o).trans hs)
    rw [honce, htwice]
    exact ⟨rfl, id⟩

/-- What assignments do to binary64 numbers, in every state. At every point of a run, a variable that the run has assigned to holds
a value, and that is no binary64 number. An assignment of a finite binary64 number stores the integer part of its exact value; one
of a number that is not finite fails, and the machine is as it was; any other value is stored as it is. To assign a variable to
itself twice leaves the context that doing it once does, whatever the variable holds. -/
theorem assigned_truncated (m : Machine) :
    (∀ tokens name, name ∈ m.runTargets tokens → name ≠ Context.reservedName →
      ∃ v, Entries.get? name (m.feed tokens).1.context = some v ∧ v.isFloat = false) ∧
    (∀ o body name expression value, m.active = true → Assignment.ofBody? body = some ⟨name, expression⟩ →
      name ≠ Context.reservedName → evaluate m.context expression = .ok value →
      (∀ x q, value = .number (.float x) → x.toRat? = some q → ∃ z, IsIntegerPart z q ∧
        m.feed [⟨o, .set body⟩] = ({ m with context := m.context.assign name (.int z) }, none)) ∧
      (∀ x, value = .number (.float x) → x.isFinite = false →
        (InPlace.handle ⟨o, .set body⟩).run m = .error (.evaluation (.notFinite x) (some expression)) m) ∧
      (value.isFloat = false →
        m.feed [⟨o, .set body⟩] = ({ m with context := m.context.assign name value }, none))) ∧
    ∀ name, Text.isName name = true → ∀ o o',
      let once := m.feed [⟨o, .set ('$' :: (name ++ " = $" ++ name))⟩]
      let twice := once.1.feed [⟨o', .set ('$' :: (name ++ " = $" ++ name))⟩]
      twice.1.context = once.1.context ∧ (once.2 = none → twice.2 = none) := by
  refine ⟨fun tokens name => isFloat_runTargets, fun o body name expression value ha hb hn hv => ⟨?_, ?_, ?_⟩,
    fun name h => feed_self_again h m⟩
  · rintro x q rfl hq
    obtain ⟨z, hz, hstored⟩ := Value.stored_of_toRat? hq
    exact ⟨z, hz, feed_singleton (step_set ha hb hn hv hstored)⟩
  · rintro x rfl hx
    have herror : evaluate m.context expression >>= Value.stored = .error (.notFinite x) :=
      bind_error_iff.2 (.inr ⟨_, hv, Value.stored_of_not_isFinite hx⟩)
    rw [InPlace.run_handle, step_set_error ha hb hn herror]
    rfl
  · intro hf
    exact feed_singleton (step_set ha hb hn hv (Value.stored_of_not_isFloat hf))

end

open scoped World in
/-- Assignments of minus two and a half, of a number that is none, and of a list. -/
theorem assigned_truncated_negative :
    let x := Binary64.finite true ⟨1023 * Binary64.binade + 5 <<< 50, by decide⟩
    let m : Machine :=
      { start [] [] with
        context := [("x".toList, .number (.float x)), ("y".toList, .number (.float .nan)), ("l".toList, .list [])] }
    ("a".toList ∈ m.runTargets [⟨0, .set "$a = $x".toList⟩] ∧
      ∃ v, Entries.get? "a".toList (m.feed [⟨0, .set "$a = $x".toList⟩]).1.context = some v ∧ v.isFloat = false) ∧
    (x.toRat? = some (-5 / 2) ∧
      m.feed [⟨0, .set "$a = $x".toList⟩] = ({ m with context := m.context.assign "a".toList (.int (-2)) }, none)) ∧
    (Binary64.nan.isFinite = false ∧ (InPlace.handle ⟨0, .set "$a = $y".toList⟩).run m =
      .error (.evaluation (.notFinite .nan) (some "$y".toList)) m) ∧
    ((Value.list []).isFloat = false ∧
      m.feed [⟨0, .set "$a = $l".toList⟩] = ({ m with context := m.context.assign "a".toList (.list []) }, none)) ∧
    Text.isName "x".toList = true ∧
      ((m.feed [⟨0, .set "$x = $x".toList⟩]).1.feed [⟨0, .set "$x = $x".toList⟩]).1.context =
        (m.feed [⟨0, .set "$x = $x".toList⟩]).1.context := by
  intro x m
  obtain ⟨hrun, hassign, hself⟩ := assigned_truncated m
  let l : (name : Text) → Assignment.Layout ("$a = ".toList ++ '$' :: name) := fun name =>
    ⟨[], ['a'], [' '], [' '], '$' :: name, nofun, rfl, by decide, by decide, ⟨_, rfl, rfl⟩, rfl⟩
  have hbody : ∀ name, Assignment.ofBody? ("$a = ".toList ++ '$' :: name) = some ⟨"a".toList, '$' :: name⟩ := fun name =>
    Assignment.ofBody?_of_layout (l name)
  have hvalue : ∀ name, Text.isName name = true → ∀ v, Value.lookup name m.context = .ok v →
      evaluate m.context ('$' :: name) = .ok v := fun name h v hv => (evaluate_var h m.context).trans hv
  have hunits : Binary64.signed true (Binary64.units (1023 * Binary64.binade + 5 <<< 50)) * 2 = -5 * Binary64.unitsPerOne := by
    decide +kernel
  have hrat : x.toRat? = some (-5 / 2) := by
    refine congrArg some ((div_eq_div_iff ?_ two_ne_zero).2 ?_)
    · exact Nat.cast_ne_zero.2 (by decide +kernel)
    · exact_mod_cast hunits
  obtain ⟨z, hz, hfeed⟩ := (hassign 0 _ _ _ _ rfl (hbody ['x']) (by decide) (hvalue ['x'] rfl _ rfl)).1 x _ rfl hrat
  have hz : z = -2 := hz.unique ⟨by norm_num, by norm_num, .inr (by norm_num)⟩
  subst hz
  have hname : "a".toList ∈ m.runTargets [⟨0, .set "$a = $x".toList⟩] := by
    have hstep : m.step ⟨0, .set "$a = $x".toList⟩ = .ok { m with context := m.context.assign "a".toList (.int (-2)) } :=
      step_set rfl (hbody ['x']) (by decide) (hvalue ['x'] rfl _ rfl) rfl
    simp only [runTargets, hstep]
    exact List.mem_append_left _ (Option.mem_toList.2 (mem_target?_iff.2 ⟨rfl, _, _, rfl, hbody ['x']⟩))
  refine ⟨⟨hname, hrun _ _ hname (by decide)⟩, ⟨hrat, hfeed⟩, ⟨rfl, ?_⟩, ⟨rfl, ?_⟩, rfl, (hself ['x'] rfl 0 0).1⟩
  · exact (hassign 0 _ _ _ _ rfl (hbody ['y']) (by decide) (hvalue ['y'] rfl _ rfl)).2.1 .nan rfl rfl
  · exact (hassign 0 _ _ _ _ rfl (hbody ['l']) (by decide) (hvalue ['l'] rfl _ rfl)).2.2 rfl

end Machine

end Stencil
