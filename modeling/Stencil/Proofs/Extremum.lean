import Mathlib.Order.Bounds.Basic
import Stencil.Proofs.Comparison

/-!
# The least and the greatest argument

`Math.min` and `Math.max` read their arguments as numbers and pass over them with the best one so far. They take two numbers or
more, and of integers they give the least and the greatest one, in whichever order these come (`Builtin.extremum`). A single number
is refused, although it is the least and the greatest one of itself.
-/

namespace Stencil

theorem exists_cons_cons {α : Type} {items : List α} (h : 2 ≤ items.length) : ∃ a b rest, items = a :: b :: rest := by
  match items, h with
  | a :: b :: rest, _ => exact ⟨a, b, rest, rfl⟩

/-- Things of the items, one of each, make a list exactly if each item has one. -/
theorem exists_forall₂_iff {α β : Type} {R : α → β → Prop} {items : List α} :
    (∃ bs, List.Forall₂ R items bs) ↔ ∀ item ∈ items, ∃ b, R item b := by
  constructor
  · rintro ⟨bs, h⟩
    exact ((List.forall₂_and_left items bs).1 (h.imp fun item b hb => ⟨⟨b, hb⟩, hb⟩)).1
  · intro h
    induction items with
    | nil => exact ⟨[], .nil⟩
    | cons item items ih =>
      obtain ⟨⟨b, hb⟩, hitems⟩ := List.forall_mem_cons.1 h
      obtain ⟨bs, hbs⟩ := ih hitems
      exact ⟨b :: bs, .cons hb hbs⟩

/-- Where each item has one thing at most, those in the list are all that any of them has. -/
theorem mem_iff_of_forall₂ {α β : Type} {R : α → β → Prop} {items : List α} {bs : List β} (h : List.Forall₂ R items bs)
    (hR : ∀ {a b b'}, R a b → R a b' → b = b') (b : β) : b ∈ bs ↔ ∃ item ∈ items, R item b := by
  induction h with
  | nil => simp
  | @cons item b' _ _ hb _ ih =>
    have hone : R item b ↔ b = b' := ⟨fun h => hR h hb, fun h => h ▸ hb⟩
    rw [List.mem_cons, List.exists_mem_cons_iff, ih, hone]

/-! ## Integers and texts that spell them -/

namespace Value

/-- A value that is or spells a number. -/
def Numeric (v : Value) : Prop := ∃ n, v.coerced = .ok (number n)

/-- `v.SpellsInt z`: the value is the integer, or a text of its digits, as many as can be read, between blanks and with a minus
sign or without one. -/
inductive SpellsInt : Value → Int → Prop
  | integer (z : Int) : SpellsInt (int z) z
  | digits {before after digits : Text} {negative : Bool} : before.Blank → after.Blank → Numeral.Written ⟨digits, none⟩ →
      digits.length ≤ digitLimit →
      SpellsInt (text (before ++ (Text.minus negative ++ digits ++ after))) (Binary64.signed negative (Text.numeralValue digits))

/-- The integers that values spell. -/
def integers (vs : List Value) : Set Int := {z | ∃ v ∈ vs, v.SpellsInt z}

variable {v : Value} {z : Int}

/-- A value spells an integer exactly if it is read as the integer. -/
theorem spellsInt_iff : v.SpellsInt z ↔ v.coerced = .ok (int z) := by
  constructor
  · rintro (_ | ⟨hbefore, hafter, hdigits, hfit⟩)
    · rfl
    · rw [coerced_digits hdigits hbefore hafter, readInteger, if_neg (Nat.not_lt.2 hfit)]
      rfl
  · intro h
    cases v with
    | number n =>
      cases h
      exact .integer z
    | text t =>
      obtain ⟨before, after, negative, digits, hbefore, hafter, hdigits, rfl, hread⟩ := digits_of_coerced h
      unfold readInteger at hread
      split at hread
      · cases hread
      · rename_i hfit
        cases hread
        exact .digits hbefore hafter hdigits (Nat.not_lt.1 hfit)
    | _ => cases h

theorem SpellsInt.unique {y : Int} (h : v.SpellsInt z) (h' : v.SpellsInt y) : z = y := by
  have heq := (spellsInt_iff.1 h).symm.trans (spellsInt_iff.1 h')
  cases heq
  rfl

end Value

/-! ## The better one of two integers -/

namespace Number

theorem lt_int (x y : Int) : (int x).lt (int y) = decide (x < y) := by
  have hone : (0 : Int) < Binary64.unitsPerOne := by decide
  have hunits : x * Binary64.unitsPerOne < y * Binary64.unitsPerOne ↔ x < y := Int.mul_lt_mul_right hone
  simp [lt, placed, place?, Place.before, hunits]

/-- The least of two integers. -/
theorem min_int (x y : Int) : Number.min (int x) (int y) = int (x ⊓ y) := by
  rw [Number.min, lt_int]
  by_cases h : y < x
  · rw [if_pos (decide_eq_true h), min_eq_right (Int.le_of_lt h)]
  · rw [if_neg (by simpa using h), min_eq_left (Int.not_lt.1 h)]

/-- The greatest of two integers. -/
theorem max_int (x y : Int) : Number.max (int x) (int y) = int (x ⊔ y) := by
  rw [Number.max, lt_int]
  by_cases h : x < y
  · rw [if_pos (decide_eq_true h), max_eq_right (Int.le_of_lt h)]
  · rw [if_neg (by simpa using h), max_eq_left (Int.not_lt.1 h)]

/-- Where the better one of two integers is an integer, so is the best one of a list. -/
theorem foldl_int {better : Number → Number → Number} {g : Int → Int → Int}
    (hbetter : ∀ x y, better (int x) (int y) = int (g x y)) (z : Int) (zs : List Int) :
    (zs.map int).foldl better (int z) = int (zs.foldl g z) := by
  rw [List.foldl_map]
  exact List.foldl_hom int hbetter

end Number

namespace MathFunction

variable {f : MathFunction} {better : Number → Number → Number} {g : Int → Int → Int} {arguments : List Value}

/-- The arguments are numbers exactly if each of them is read as one. -/
theorem numbers_eq_ok_iff {ns : List Number} :
    numbers f arguments = .ok ns ↔ List.Forall₂ (fun v n => v.coerced = .ok (.number n)) arguments ns := by
  rw [numbers, bind_ok_iff]
  simp only [Fault.ofDigits, mapError_ok_iff, mapM_ok_iff]
  constructor
  · rintro ⟨read, hread, hns⟩
    induction hread generalizing ns with
    | nil =>
      cases hns
      exact .nil
    | @cons v n? _ _ hv _ ih =>
      rw [List.zip_cons_cons] at hns
      cases hns with
      | cons hn hrest =>
        cases n? with
        | none => cases hn
        | some n =>
          cases hn
          exact .cons (Value.asNumber?_eq_some_iff.1 hv) (ih hrest)
  · intro h
    refine ⟨ns.map some, ?_, ?_⟩
    · rw [List.forall₂_map_right_iff]
      exact h.imp fun v n => Value.asNumber?_eq_some_iff.2
    · induction h with
      | nil => exact .nil
      | cons _ _ ih => exact .cons rfl ih

/-- A choice is made among two numbers or more: the best one so far is kept along the list. -/
theorem choose_eq_ok_iff {w : Value} :
    choose f better arguments = .ok w ↔ ∃ n m rest, numbers f arguments = .ok (n :: m :: rest) ∧
      w = .number ((m :: rest).foldl better n) := by
  cases arguments with
  | nil =>
    constructor
    · intro h
      cases h
    · rintro ⟨n, m, rest, h, -⟩
      cases h
  | cons v vs =>
    rw [choose, List.isEmpty_cons, if_neg Bool.false_ne_true, bind_ok_iff]
    constructor
    · rintro ⟨ns, hns, hw⟩
      split at hw
      · rename_i n m rest
        cases hw
        exact ⟨n, m, rest, hns, rfl⟩
      · cases hw
    · rintro ⟨n, m, rest, hns, rfl⟩
      exact ⟨_, hns, rfl⟩

theorem choose_single {v : Value} (h : v.Numeric) : choose f better [v] = .error (.argumentCount (.math f)) := by
  obtain ⟨n, hn⟩ := h
  rw [choose, numbers_eq_ok_iff.2 (.cons hn .nil)]
  rfl

/-- Two values or more are accepted exactly if all of them are or spell numbers. -/
theorem exists_choose_iff :
    (∃ w, choose f better arguments = .ok w) ↔ 2 ≤ arguments.length ∧ ∀ v ∈ arguments, v.Numeric := by
  simp only [choose_eq_ok_iff, numbers_eq_ok_iff]
  constructor
  · rintro ⟨-, n, m, rest, hns, -⟩
    have hlength := hns.length_eq
    rw [List.length_cons, List.length_cons] at hlength
    exact ⟨by omega, exists_forall₂_iff.1 ⟨_, hns⟩⟩
  · rintro ⟨hlength, h⟩
    obtain ⟨ns, hns⟩ := exists_forall₂_iff.2 h
    rw [hns.length_eq] at hlength
    obtain ⟨n, m, rest, rfl⟩ := exists_cons_cons hlength
    exact ⟨_, n, m, rest, hns, rfl⟩

/-- Of two values or more that spell integers, an extreme one is chosen, in whichever order they are given: the best one so far is
an extreme one of those passed over. -/
theorem exists_choice_iff {Extreme : Set Int → Int → Prop} (hbetter : ∀ x y, better (.int x) (.int y) = .int (g x y))
    (hextreme : ∀ x zs, Extreme {z | z ∈ x :: zs} (zs.foldl g x)) (hunique : ∀ {s x y}, Extreme s x → Extreme s y → x = y)
    (h : ∀ v ∈ arguments, ∃ z, v.SpellsInt z) :
    (∃ z, Extreme (Value.integers arguments) z ∧
      ∀ other : List Value, other.Perm arguments → choose f better other = .ok (.int z)) ↔ 2 ≤ arguments.length := by
  constructor
  · rintro ⟨z, -, hz⟩
    exact (exists_choose_iff.1 ⟨_, hz arguments (.refl _)⟩).1
  · intro hlength
    have hone : ∀ other : List Value, other.Perm arguments →
        ∃ z, Extreme (Value.integers arguments) z ∧ choose f better other = .ok (.int z) := by
      intro other hperm
      obtain ⟨zs, hzs⟩ := exists_forall₂_iff.2 fun v hv => h v (hperm.subset hv)
      rw [← hperm.length_eq, hzs.length_eq] at hlength
      obtain ⟨x, y, rest, rfl⟩ := exists_cons_cons hlength
      have hset : Value.integers arguments = {z | z ∈ x :: y :: rest} := by
        ext z
        show (∃ v ∈ arguments, v.SpellsInt z) ↔ z ∈ x :: y :: rest
        rw [mem_iff_of_forall₂ hzs Value.SpellsInt.unique]
        exact exists_congr fun v => and_congr_left' hperm.mem_iff.symm
      have hnumbers : numbers f other = .ok ((x :: y :: rest).map .int) := by
        rw [numbers_eq_ok_iff, List.forall₂_map_right_iff]
        exact hzs.imp fun v z => Value.spellsInt_iff.1
      refine ⟨(y :: rest).foldl g x, hset ▸ hextreme x (y :: rest), choose_eq_ok_iff.2 ⟨_, _, _, hnumbers, ?_⟩⟩
      rw [← List.map_cons, Number.foldl_int hbetter]
      rfl
    obtain ⟨z, hz, -⟩ := hone arguments (.refl _)
    refine ⟨z, hz, fun other hperm => ?_⟩
    obtain ⟨y, hy, hchoose⟩ := hone other hperm
    rw [hchoose, hunique hy hz]

end MathFunction

/-- The two functions that choose one of their arguments take two values or more if all of them are or spell numbers. They refuse
an empty list, and a single number as a wrong count. Where the values spell integers, they give the least one and the greatest one,
in whichever order these are given, exactly if there are two or more. -/
theorem Builtin.extremum [World] (arguments : List Value) :
    (∀ f ∈ [MathFunction.min, .max],
      ((∃ w, apply (.math f) arguments = .ok w) ↔ 2 ≤ arguments.length ∧ ∀ v ∈ arguments, v.Numeric) ∧
      (arguments = [] → apply (.math f) arguments = .error (.noArguments f)) ∧
      ∀ v : Value, v.Numeric → arguments = [v] → apply (.math f) arguments = .error (.argumentCount (.math f))) ∧
    ((∀ v ∈ arguments, ∃ z, v.SpellsInt z) →
      ((∃ z, IsLeast (Value.integers arguments) z ∧
        ∀ other : List Value, other.Perm arguments → apply (.math .min) other = .ok (.int z)) ↔ 2 ≤ arguments.length) ∧
      ((∃ z, IsGreatest (Value.integers arguments) z ∧
        ∀ other : List Value, other.Perm arguments → apply (.math .max) other = .ok (.int z)) ↔ 2 ≤ arguments.length)) := by
  refine ⟨fun f hf => ?_, fun h => ⟨?_, ?_⟩⟩
  · obtain ⟨better, hbetter⟩ : ∃ better, ∀ arguments, apply (.math f) arguments = f.choose better arguments := by
      rw [List.mem_pair] at hf
      rcases hf with rfl | rfl
      · exact ⟨.min, fun _ => rfl⟩
      · exact ⟨.max, fun _ => rfl⟩
    simp only [hbetter]
    refine ⟨MathFunction.exists_choose_iff, ?_, ?_⟩
    · rintro rfl
      rfl
    · rintro v hv rfl
      exact MathFunction.choose_single hv
  · refine MathFunction.exists_choice_iff Number.min_int (fun x zs => ?_) IsLeast.unique h
    have hleast := List.min?_eq_some_iff.1 (List.min?_cons' : (x :: zs).min? = some (zs.foldl min x))
    exact ⟨hleast.1, hleast.2⟩
  · refine MathFunction.exists_choice_iff Number.max_int (fun x zs => ?_) IsGreatest.unique h
    have hgreatest := List.max?_eq_some_iff.1 (List.max?_cons' : (x :: zs).max? = some (zs.foldl max x))
    exact ⟨hgreatest.1, hgreatest.2⟩

open scoped World in
/-- Three arguments, one of them a text, and a single one. -/
theorem Builtin.extremum_three :
    (IsLeast (Value.integers [.int 3, .text " -7 ", .int 1]) (-7) ∧
      apply (.math .min) [.text " -7 ", .int 1, .int 3] = .ok (.int (-7))) ∧
    (IsGreatest (Value.integers [.int 3, .text " -7 ", .int 1]) 3 ∧
      apply (.math .max) [.text " -7 ", .int 1, .int 3] = .ok (.int 3)) ∧
    apply (.math .max) [.text " -7 "] = .error (.argumentCount (.math .max)) := by
  have hspells : ∀ v ∈ [Value.int 3, .text " -7 ", .int 1], ∃ z, v.SpellsInt z := by
    simp only [List.forall_mem_cons, Value.spellsInt_iff]
    exact ⟨⟨3, rfl⟩, ⟨-7, rfl⟩, ⟨1, rfl⟩, nofun⟩
  have hperm : [Value.text " -7 ", .int 1, .int 3].Perm [.int 3, .text " -7 ", .int 1] :=
    List.perm_append_singleton (Value.int 3) [.text " -7 ", .int 1]
  have hmin : apply (.math .min) [.text " -7 ", .int 1, .int 3] = .ok (.int (-7)) := rfl
  have hmax : apply (.math .max) [.text " -7 ", .int 1, .int 3] = .ok (.int 3) := rfl
  obtain ⟨hleast, hgreatest⟩ := (extremum [.int 3, .text " -7 ", .int 1]).2 hspells
  obtain ⟨least, hleast, hany⟩ := hleast.2 (by decide)
  obtain ⟨greatest, hgreatest, hany'⟩ := hgreatest.2 (by decide)
  cases hmin.symm.trans (hany _ hperm)
  cases hmax.symm.trans (hany' _ hperm)
  exact ⟨⟨hleast, hmin⟩, ⟨hgreatest, hmax⟩, ((extremum _).1 .max (by decide)).2.2 _ ⟨.int (-7), rfl⟩ rfl⟩

open scoped World in
/-- It is not enough that there is an argument: of a single integer, nothing is chosen. -/
theorem Builtin.not_extremum_single :
    ¬∀ arguments : List Value, arguments ≠ [] → (∀ v ∈ arguments, ∃ z, v.SpellsInt z) →
      ∃ z, IsLeast (Value.integers arguments) z ∧ apply (.math .min) arguments = .ok (.int z) := by
  intro h
  obtain ⟨z, -, hz⟩ := h [.int 5] (by decide) (List.forall_mem_singleton.2 ⟨5, .integer 5⟩)
  cases hz

end Stencil
