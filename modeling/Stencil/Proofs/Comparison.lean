import Mathlib.Data.Fintype.EquivFin
import Mathlib.Data.List.Nodup
import Stencil.Evaluation.Basic
import Stencil.Proofs.Codec
import Stencil.Proofs.Except

/-!
# Comparing values

Equality and order are found in two ways, equality by the kinds of the values and order by their numbers alone. The two agree
(`comparisons_agree`): of two texts, and of two values that are or spell numbers, one is less than the other, or equal to it, or
greater, and values of other kinds are in no order at all.
-/

namespace Stencil

/-! ## The order of texts and of numbers -/

/-- Of two texts one comes before the other, or they are the same. -/
theorem Text.count_before (s t : Text) : [s.before t, decide (s = t), t.before s].count true = 1 := by
  induction s generalizing t with
  | nil => cases t <;> simp [before]
  | cons c s ih =>
    cases t with
    | nil => simp [before]
    | cons d t =>
      rcases Nat.lt_trichotomy c.toNat d.toNat with h | h | h
      · have hne : c ≠ d := fun heq => absurd h (heq ▸ Nat.lt_irrefl _)
        simp [before, h, hne, hne.symm, Nat.lt_asymm h]
      · obtain rfl := Char.toNat_inj.1 h
        simpa [before] using ih t
      · have hne : c ≠ d := fun heq => absurd h (heq ▸ Nat.lt_irrefl _)
        simp [before, h, hne, hne.symm, Nat.lt_asymm h]

namespace Number

variable {m n : Number}

/-- Of two places one lies before the other, or they are the same. -/
theorem Place.count_before (p q : Place) : [p.before q, decide (p = q), q.before p].count true = 1 := by
  obtain ⟨side, units⟩ := p
  obtain ⟨side', units'⟩ := q
  rcases Int.lt_trichotomy side side' with h | rfl | h
  · have hne : side ≠ side' := Int.ne_of_lt h
    simp [before, h, hne, hne.symm, Int.lt_asymm h]
  · rcases Int.lt_trichotomy units units' with h | rfl | h
    · simp [before, h, Int.ne_of_lt h, Int.lt_asymm h]
    · simp [before]
    · simp [before, h, (Int.ne_of_lt h).symm, Int.lt_asymm h]
  · have hne : side' ≠ side := Int.ne_of_lt h
    simp [before, h, hne, hne.symm, Int.lt_asymm h]

theorem place?_eq_none_iff : n.place? = none ↔ n = .float .nan := by
  cases n with
  | int n => exact iff_of_false nofun nofun
  | float x => cases x <;> simp [place?]

/-- The number that is none stands in no relation. -/
theorem placed_eq_false (related : Place → Place → Bool) (h : m = .float .nan ∨ n = .float .nan) :
    placed related m n = false := by
  rcases h with rfl | rfl
  · rfl
  · unfold placed
    cases m.place? <;> rfl

/-- A relation of numbers with places is that of their places. -/
theorem exists_placed (hm : m ≠ .float .nan) (hn : n ≠ .float .nan) :
    ∃ p q, ∀ related, placed related m n = related p q ∧ placed related n m = related q p := by
  obtain ⟨p, hp⟩ := Option.ne_none_iff_exists'.1 (mt place?_eq_none_iff.1 hm)
  obtain ⟨q, hq⟩ := Option.ne_none_iff_exists'.1 (mt place?_eq_none_iff.1 hn)
  refine ⟨p, q, fun related => ?_⟩
  unfold placed
  rw [hp, hq]
  exact ⟨rfl, rfl⟩

/-- Of two numbers with places one is less than the other, or they are equal. -/
theorem count_lt (hm : m ≠ .float .nan) (hn : n ≠ .float .nan) : [m.lt n, m.eq n, n.lt m].count true = 1 := by
  obtain ⟨p, q, h⟩ := exists_placed hm hn
  rw [lt, eq, (h _).1, (h _).1, (h _).2]
  exact Place.count_before p q

/-- Of two numbers with places one is at most the other if the other is not less. -/
theorem le_eq (hm : m ≠ .float .nan) (hn : n ≠ .float .nan) : m.le n = !n.lt m := by
  obtain ⟨p, q, h⟩ := exists_placed hm hn
  rw [lt, le, (h _).1, (h _).2]

theorem eq_swap (m n : Number) : m.eq n = n.eq m := by
  unfold eq placed
  cases m.place? <;> cases n.place? <;> simp [eq_comm]

end Number

/-! ## The equality of values -/

theorem Moment.same_swap (m n : Moment) : m.same n = n.same m := by
  unfold same
  cases m.clock <;> cases n.clock <;> simp only [eq_comm]

/-- Names that are as many as others and have equal values among theirs are all of the others: each of the others has an equal value
among the first. -/
theorem Names.exists_of_forall {names others : Names} {equal : Fin names.count → Fin others.count → Bool}
    (hcount : names.count = others.count) (h : ∀ i, ∃ j, others.get j = names.get i ∧ equal i j = true) (j : Fin others.count) :
    ∃ i, names.get i = others.get j ∧ equal i j = true := by
  choose place hplace using h
  have hinjective : Function.Injective place := by
    intro i i' heq
    refine List.nodup_iff_injective_get.1 names.nodup ?_
    exact (hplace i).1.symm.trans ((congrArg others.get heq).trans (hplace i').1)
  obtain ⟨i, rfl⟩ := ((Fintype.bijective_iff_injective_and_card place).2 ⟨hinjective, by simpa using hcount⟩).2 j
  exact ⟨i, (hplace i).1.symm, (hplace i).2⟩

namespace Value

theorem alike_of_asCount? {v w : Value} {m n : Number} (hv : v.asCount? = some m) (hw : w.asCount? = some n) :
    alike v w = m.eq n := by
  cases v <;> cases hv <;> cases w <;> cases hw <;> rfl

/-- Plain equality of values that are neither containers nor objects goes both ways. -/
theorem alike_swap (v w : Value) : alike v w = alike w v := by
  have hcount : ∀ {v w : Value} {m n : Number}, v.asCount? = some m → w.asCount? = some n → alike v w = alike w v := by
    intro v w m n hv hw
    rw [alike_of_asCount? hv hw, alike_of_asCount? hw hv, Number.eq_swap]
  cases v with
  | null | list | mapping | host => cases w <;> rfl
  | bool b =>
    cases w with
    | bool _ | number _ => exact hcount rfl rfl
    | _ => rfl
  | number m =>
    cases w with
    | bool _ | number _ => exact hcount rfl rfl
    | _ => rfl
  | text s =>
    cases w with
    | text t => simp only [alike, eq_comm]
    | _ => rfl
  | moment m =>
    cases w with
    | moment n => exact Moment.same_swap m n
    | _ => rfl
  | library l =>
    cases w with
    | library m => simp only [alike, eq_comm]
    | _ => rfl
  | builtin f =>
    cases w with
    | builtin g => simp only [alike, eq_comm]
    | _ => rfl

theorem isSame_swap (item other : Nat × Value) : isSame item other = isSame other item := by
  obtain ⟨i, v⟩ := item
  obtain ⟨j, w⟩ := other
  cases v <;> cases w <;> simp only [isSame, eq_comm]

section

variable [World]

/-- What an object makes of being compared with a value of another kind is a truth value. -/
theorem compareObject_eq (h : World.Lawful) (i : Nat) (v : Value) : ∃ b, compareObject i v = .ok (bool b) := by
  obtain ⟨answer?, hanswer⟩ := h.answers i v
  unfold compareObject
  rw [hanswer]
  cases answer? with
  | none => exact ⟨false, rfl⟩
  | some answer =>
    obtain ⟨b, rfl⟩ := h.answersTruth i v answer hanswer
    exact ⟨b, rfl⟩

/-- Two objects that are asked one after the other give a truth value, and which of them is asked first does not matter. -/
theorem askInTurn_swap (h : World.Lawful) (i j : Nat) :
    ∃ b, askInTurn i j = .ok (bool b) ∧ askInTurn j i = .ok (bool b) := by
  obtain ⟨answer?, hi⟩ := h.answers i (host j)
  obtain ⟨answer?', hj⟩ := h.answers j (host i)
  unfold askInTurn
  rw [hi, hj]
  cases answer? with
  | some answer =>
    obtain ⟨b, rfl⟩ := h.answersTruth _ _ _ hi
    cases answer?' with
    | some answer' => exact ⟨b, rfl, congrArg Except.ok (h.agree _ _ _ _ hi hj).symm⟩
    | none => exact ⟨b, rfl, rfl⟩
  | none =>
    cases answer?' with
    | some answer' =>
      obtain ⟨b, rfl⟩ := h.answersTruth _ _ _ hj
      exact ⟨b, rfl, rfl⟩
    | none => exact ⟨i = j, rfl, by rw [decide_eq_decide.2 (eq_comm (a := i))]; rfl⟩

/-- What two objects make of being compared is one truth value, whichever of them stands first. -/
theorem compareObjects_swap (h : World.Lawful) (i j : Nat) :
    ∃ b, compareObjects i j = .ok (bool b) ∧ compareObjects j i = .ok (bool b) := by
  obtain ⟨b, hb, hb'⟩ := askInTurn_swap h i j
  refine ⟨b, ?_, ?_⟩
  · rw [compareObjects, hb, hb', ite_self]
  · rw [compareObjects, hb, hb', ite_self]

/-- Mappings are equal both ways if their items are. -/
theorem compared_mapping_swap {names others : Names} {values : Fin names.count → Nat × Value}
    {values' : Fin others.count → Nat × Value}
    (h : ∀ i j, ∃ b, sameItem (values i) (values' j) = .ok b ∧ sameItem (values' j) (values i) = .ok b) :
    ∃ b, compared (mapping names values) (mapping others values') = .ok (bool b) ∧
      compared (mapping others values') (mapping names values) = .ok (bool b) := by
  choose equal hequal using h
  by_cases hcount : names.count = others.count
  · have hfound : ∀ i, ((others.find? (names.get i)).elim (.ok false) fun j => sameItem (values i) (values' j)) =
        .ok ((others.find? (names.get i)).any (equal i)) := by
      intro i
      cases others.find? (names.get i) with
      | none => rfl
      | some j => exact (hequal i j).1
    have hfound' : ∀ j, ((names.find? (others.get j)).elim (.ok false) fun i => sameItem (values' j) (values i)) =
        .ok ((names.find? (others.get j)).any fun i => equal i j) := by
      intro j
      cases names.find? (others.get j) with
      | none => rfl
      | some i => exact (hequal i j).2
    refine ⟨(List.finRange names.count).all fun i => (others.find? (names.get i)).any (equal i), ?_, ?_⟩
    · rw [compared, if_pos hcount, allM_eq hfound]
      rfl
    · have hall : ((List.finRange others.count).all fun j => (names.find? (others.get j)).any fun i => equal i j) =
          (List.finRange names.count).all fun i => (others.find? (names.get i)).any (equal i) := by
        rw [Bool.eq_iff_iff]
        simp only [List.all_eq_true, List.mem_finRange, true_imp_iff, Option.any_eq_true, Names.find?_eq_some_iff]
        exact ⟨Names.exists_of_forall hcount.symm, Names.exists_of_forall hcount⟩
      rw [compared, if_pos (Eq.symm hcount), allM_eq hfound', hall]
      rfl
  · refine ⟨false, ?_, ?_⟩
    · rw [compared, if_neg hcount]
    · rw [compared, if_neg (Ne.symm hcount)]

/-- A value that is no object is compared with an object by asking the object. -/
theorem compared_host_swap (h : World.Lawful) (v : Value) (i : Nat) :
    ∃ b, compared v (host i) = .ok (bool b) ∧ compared (host i) v = .ok (bool b) := by
  cases v with
  | host j => exact compareObjects_swap h j i
  | _ =>
    obtain ⟨b, hb⟩ := compareObject_eq h i _
    exact ⟨b, hb, hb⟩

mutual

/-- Where objects keep the rules, comparing two values gives a truth value, and the same one both ways. -/
theorem compared_swap (h : World.Lawful) : (v w : Value) → ∃ b, compared v w = .ok (bool b) ∧ compared w v = .ok (bool b)
  | host i, w => (compared_host_swap h w i).imp fun _ hb => hb.symm
  | list items, w => by
    cases w with
    | host j => exact compared_host_swap h _ j
    | list others =>
      obtain ⟨b, hb, hb'⟩ := sameItems_swap h items others
      by_cases hlength : items.length = others.length
      · refine ⟨b, ?_, ?_⟩
        · rw [compared, if_pos hlength, hb]
          rfl
        · rw [compared, if_pos hlength.symm, hb']
          rfl
      · refine ⟨false, ?_, ?_⟩
        · rw [compared, if_neg hlength]
        · rw [compared, if_neg (Ne.symm hlength)]
    | _ => exact ⟨false, rfl, rfl⟩
  | mapping names values, w => by
    cases w with
    | host j => exact compared_host_swap h _ j
    | mapping others values' => exact compared_mapping_swap fun i j => sameItem_swap h (values i) (values' j)
    | _ => exact ⟨false, rfl, rfl⟩
  | null, w | bool _, w | number _, w | text _, w | moment _, w | library _, w | builtin _, w => by
    cases w with
    | host j => exact compared_host_swap h _ j
    | _ => exact ⟨_, rfl, congrArg (fun b => Except.ok (bool b)) (alike_swap _ _)⟩

/-- The same of items of containers. -/
theorem sameItem_swap (h : World.Lawful) : (item other : Nat × Value) →
    ∃ b, sameItem item other = .ok b ∧ sameItem other item = .ok b
  | (i, v), (j, w) => by
    obtain ⟨b, hb, hb'⟩ := compared_swap h v w
    rw [sameItem, sameItem, isSame_swap (j, w), hb, hb']
    split
    · exact ⟨true, rfl, rfl⟩
    · exact ⟨b, rfl, rfl⟩

/-- The same of lists of items. -/
theorem sameItems_swap (h : World.Lawful) : (items others : List (Nat × Value)) →
    ∃ b, sameItems items others = .ok b ∧ sameItems others items = .ok b
  | [], others => by cases others <;> exact ⟨true, rfl, rfl⟩
  | item :: rest, [] => ⟨true, rfl, rfl⟩
  | item :: rest, other :: others => by
    obtain ⟨b, hb, hb'⟩ := sameItem_swap h item other
    obtain ⟨c, hc, hc'⟩ := sameItems_swap h rest others
    rw [sameItems, sameItems, hb, hb']
    cases b with
    | false => exact ⟨false, rfl, rfl⟩
    | true => exact ⟨c, hc, hc'⟩

end

end

end Value

/-! ## Operands of comparisons -/

/-- A text that spells no integer with too many digits to be read. -/
def Text.Legible (t : Text) : Prop :=
  ∀ (before after : Text) (negative : Bool) (digits : Text), before.Blank → after.Blank → (∀ c ∈ digits, isDigit c = true) →
    t = before ++ (minus negative ++ digits ++ after) → digits.length ≤ digitLimit

theorem Text.legible_of_length {t : Text} (h : t.length ≤ digitLimit) : t.Legible := by
  rintro before after negative digits - - - rfl
  simp only [List.length_append] at h
  omega

/-- Of a legible text it is known whether it spells a number. -/
theorem Text.Legible.ofText?_ok {t : Text} (h : t.Legible) : ∃ n?, Number.ofText? t = .ok n? := by
  rcases Number.ofText?_cases t with ⟨before, after, negative, ⟨whole, fraction⟩, hbefore, hafter, hn, rfl⟩ | hnone
  · rw [hn.ofText?_eq hbefore hafter]
    cases fraction with
    | some digits => exact ⟨_, rfl⟩
    | none =>
      have hshort : ¬digitLimit < whole.length :=
        Nat.not_lt.2 (h before after negative whole hbefore hafter hn.whole_digits rfl)
      rw [Numeral.toNumber, readInteger, if_neg hshort]
      exact ⟨_, rfl⟩
  · exact ⟨none, hnone⟩

namespace Value

variable {v w : Value}

/-- A value that is no text with too many digits to be read. -/
def Legible (v : Value) : Prop := ∀ t, v = text t → t.Legible

/-- Two values have an order: both are texts, or both are or spell numbers other than the one that is none. -/
def Comparable (v w : Value) : Prop :=
  (∃ s t, v = text s ∧ w = text t) ∨
    ∃ m n, v.coerced = .ok (number m) ∧ w.coerced = .ok (number n) ∧ m ≠ .float .nan ∧ n ≠ .float .nan

/-- A value is or spells a number exactly if it is read as the number. -/
theorem asNumber?_eq_some_iff {n : Number} : v.asNumber? = .ok (some n) ↔ v.coerced = .ok (number n) := by
  cases v with
  | number m => exact ⟨fun h => by cases h; rfl, fun h => by cases h; rfl⟩
  | text t =>
    rw [asNumber?, coerced]
    rcases Number.ofText? t with e | _ | m
    · constructor <;> intro h <;> cases h
    · constructor <;> intro h <;> cases h
    · exact ⟨fun h => by cases h; rfl, fun h => by cases h; rfl⟩
  | _ => constructor <;> intro h <;> cases h

theorem Legible.asNumber?_ok (h : v.Legible) : ∃ n?, v.asNumber? = .ok n? := by
  cases v with
  | text t => exact (h t rfl).ofText?_ok
  | _ => exact ⟨_, rfl⟩

/-- The order of two numbers, or of a number and a text that spells one, is that of the numbers. -/
theorem ordered_of_numbers {m n : Number} (hv : v.asNumber? = .ok (some m)) (hw : w.asNumber? = .ok (some n))
    (h : ¬∃ s t, v = text s ∧ w = text t) (texts : Text → Text → Bool) (numbers : Number → Number → Bool) :
    v.ordered texts numbers w = .ok (numbers m n) := by
  unfold ordered
  split
  · exact absurd ⟨_, _, rfl, rfl⟩ h
  · rw [hv, hw]
    rfl

/-- Two values are in no order if one of them is no number, unless both are texts. -/
theorem ordered_of_none {m? n? : Option Number} (hv : v.asNumber? = .ok m?) (hw : w.asNumber? = .ok n?)
    (hnone : m? = none ∨ n? = none) (h : ¬∃ s t, v = text s ∧ w = text t) (texts : Text → Text → Bool)
    (numbers : Number → Number → Bool) : v.ordered texts numbers w = .ok false := by
  unfold ordered
  split
  · exact absurd ⟨_, _, rfl, rfl⟩ h
  · rw [hv, hw]
    rcases hnone with rfl | rfl
    · rfl
    · cases m? <;> rfl

section

variable [World]

/-- A text and a number, or two numbers, are equal exactly if their numbers are. -/
theorem looselyEquals_eq {m n : Number} (hv : v.asNumber? = .ok (some m)) (hw : w.asNumber? = .ok (some n))
    (h : ¬∃ s t, v = text s ∧ w = text t) : v.looselyEquals w = .ok (bool (m.eq n)) := by
  cases v with
  | number x =>
    cases hv
    cases w with
    | number y =>
      cases hw
      rfl
    | text t =>
      rw [asNumber?] at hw
      rw [looselyEquals, hw]
      rfl
    | _ => cases hw
  | text s =>
    cases w with
    | number y =>
      cases hw
      rw [asNumber?] at hv
      rw [looselyEquals, hv]
      rfl
    | text t => exact absurd ⟨s, t, rfl, rfl⟩ h
    | _ => cases hw
  | _ => cases hv

/-- Where objects keep the rules, the equality of expressions gives a truth value, and the same one both ways. -/
theorem looselyEquals_swap (h : World.Lawful) (hv : v.Legible) (hw : w.Legible) :
    ∃ b, v.looselyEquals w = .ok (bool b) ∧ w.looselyEquals v = .ok (bool b) := by
  have hcompared : ∃ b, Obstacle.ofObject (compared v w) = .ok (bool b) ∧ Obstacle.ofObject (compared w v) = .ok (bool b) := by
    obtain ⟨b, hb, hb'⟩ := compared_swap h v w
    exact ⟨b, congrArg Obstacle.ofObject hb, congrArg Obstacle.ofObject hb'⟩
  cases v with
  | bool a =>
    cases w with
    | bool b => exact ⟨a = b, rfl, by rw [looselyEquals]; simp only [eq_comm]⟩
    | _ => exact ⟨false, rfl, rfl⟩
  | number m =>
    cases w with
    | bool _ => exact ⟨false, rfl, rfl⟩
    | text t =>
      obtain ⟨n?, hn⟩ := (hw t rfl).ofText?_ok
      rw [looselyEquals, looselyEquals, hn]
      cases n? with
      | none => exact ⟨false, rfl, rfl⟩
      | some n => exact ⟨m.eq n, rfl, congrArg (fun b => Except.ok (bool b)) (Number.eq_swap n m)⟩
    | _ => exact hcompared
  | text s =>
    cases w with
    | bool _ => exact ⟨false, rfl, rfl⟩
    | number n =>
      obtain ⟨m?, hm⟩ := (hv s rfl).ofText?_ok
      rw [looselyEquals, looselyEquals, hm]
      cases m? with
      | none => exact ⟨false, rfl, rfl⟩
      | some m => exact ⟨m.eq n, rfl, congrArg (fun b => Except.ok (bool b)) (Number.eq_swap n m)⟩
    | _ => exact hcompared
  | _ =>
    cases w with
    | bool _ => exact ⟨false, rfl, rfl⟩
    | _ => exact hcompared

end

/-- The order of two values turns around with them. -/
theorem ordered_swap (hv : v.Legible) (hw : w.Legible) (texts : Text → Text → Bool) (numbers : Number → Number → Bool) :
    ∃ b, v.ordered texts numbers w = .ok b ∧ w.ordered (fun s t => texts t s) (fun m n => numbers n m) v = .ok b := by
  obtain ⟨m?, hm⟩ := hv.asNumber?_ok
  obtain ⟨n?, hn⟩ := hw.asNumber?_ok
  by_cases htexts : ∃ s t, v = text s ∧ w = text t
  · obtain ⟨s, t, rfl, rfl⟩ := htexts
    exact ⟨texts s t, rfl, rfl⟩
  · have htexts' : ¬∃ s t, w = text s ∧ v = text t := fun ⟨s, t, hs, ht⟩ => htexts ⟨t, s, ht, hs⟩
    by_cases hnone : m? = none ∨ n? = none
    · exact ⟨false, ordered_of_none hm hn hnone htexts texts numbers, ordered_of_none hn hm hnone.symm htexts' _ _⟩
    · rw [not_or] at hnone
      obtain ⟨m, rfl⟩ := Option.ne_none_iff_exists'.1 hnone.1
      obtain ⟨n, rfl⟩ := Option.ne_none_iff_exists'.1 hnone.2
      exact ⟨numbers m n, ordered_of_numbers hm hn htexts texts numbers, ordered_of_numbers hn hm htexts' _ _⟩

theorem Comparable.symm (h : v.Comparable w) : w.Comparable v := by
  rcases h with ⟨s, t, hs, ht⟩ | ⟨m, n, hm, hn, hm', hn'⟩
  · exact .inl ⟨t, s, ht, hs⟩
  · exact .inr ⟨n, m, hn, hm, hn', hm'⟩

/-- Of two comparable values one is less than the other, or they are equal, and one is at most the other if the other is not
less. -/
theorem Comparable.ordered_eq [World] (h : v.Comparable w) : ∃ below equal above : Bool, [below, equal, above].count true = 1 ∧
    v.looselyEquals w = .ok (bool equal) ∧ v.ordered Text.before Number.lt w = .ok below ∧ w.ordered Text.before Number.lt v = .ok above ∧
    v.ordered (fun s t => !t.before s) Number.le w = .ok !above ∧ w.ordered (fun s t => !t.before s) Number.le v = .ok !below := by
  by_cases htexts : ∃ s t, v = text s ∧ w = text t
  · obtain ⟨s, t, rfl, rfl⟩ := htexts
    exact ⟨s.before t, s = t, t.before s, Text.count_before s t, rfl, rfl, rfl, rfl, rfl⟩
  · have htexts' : ¬∃ s t, w = text s ∧ v = text t := fun ⟨s, t, hs, ht⟩ => htexts ⟨t, s, ht, hs⟩
    obtain ⟨m, n, hm, hn, hm', hn'⟩ := h.resolve_left htexts
    rw [← asNumber?_eq_some_iff] at hm hn
    refine ⟨m.lt n, m.eq n, n.lt m, Number.count_lt hm' hn', looselyEquals_eq hm hn htexts, ordered_of_numbers hm hn htexts _ _,
      ordered_of_numbers hn hm htexts' _ _, ?_, ?_⟩
    · rw [← Number.le_eq hm' hn']
      exact ordered_of_numbers hm hn htexts _ _
    · rw [← Number.le_eq hn' hm']
      exact ordered_of_numbers hn hm htexts' _ _

/-- Values that are not comparable are in no order. -/
theorem ordered_of_not_comparable (hv : v.Legible) (hw : w.Legible) (h : ¬v.Comparable w) (texts : Text → Text → Bool)
    (related : Number.Place → Number.Place → Bool) : v.ordered texts (Number.placed related) w = .ok false := by
  have htexts : ¬∃ s t, v = text s ∧ w = text t := fun hex => h (.inl hex)
  obtain ⟨m?, hm⟩ := hv.asNumber?_ok
  obtain ⟨n?, hn⟩ := hw.asNumber?_ok
  by_cases hnone : m? = none ∨ n? = none
  · exact ordered_of_none hm hn hnone htexts _ _
  · rw [not_or] at hnone
    obtain ⟨m, rfl⟩ := Option.ne_none_iff_exists'.1 hnone.1
    obtain ⟨n, rfl⟩ := Option.ne_none_iff_exists'.1 hnone.2
    have hnan : m = .float .nan ∨ n = .float .nan := by
      by_contra hnan
      rw [not_or] at hnan
      exact h (.inr ⟨m, n, asNumber?_eq_some_iff.1 hm, asNumber?_eq_some_iff.1 hn, hnan.1, hnan.2⟩)
    rw [ordered_of_numbers hm hn htexts, Number.placed_eq_false related hnan]

end Value

/-! ## Comparisons in expressions -/

section

variable {context : Entries Value} {left right : Expr} {v w : Value} {b : Bool}

theorem BinaryOp.compare_of_ordered {texts : Text → Text → Bool} {numbers : Number → Number → Bool}
    (h : v.ordered texts numbers w = .ok b) : compare texts numbers v w = .ok (.bool b) := by
  rw [compare, h]
  rfl

/-- If exactly one of three holds, then the first or the second holds if the third does not. -/
theorem not_eq_or_of_count : ∀ {below equal above : Bool}, [below, equal, above].count true = 1 →
    (!above) = (below || equal) ∧ (!below) = (above || equal) := by
  decide

variable [World]

/-- Equality has the truth value of the equality of the values, and inequality the other one. -/
theorem BinaryOp.apply_equal (h : v.looselyEquals w = .ok (.bool b)) :
    equal.apply v w = .ok (.bool b) ∧ notEqual.apply v w = .ok (.bool !b) := by
  rw [apply, apply, h]
  exact ⟨rfl, rfl⟩

namespace Expr

/-- An operator on two expressions, and another one on the two turned around, have the same truth value. -/
def Agree (context : Entries Value) (left right : Expr) (op turned : BinaryOp) (b : Bool) : Prop :=
  (binary op left right).eval context = .ok (.bool b) ∧ (binary turned right left).eval context = .ok (.bool b)

/-- The value of an operator on two expressions is what it makes of theirs. -/
theorem eval_binary (op : BinaryOp) (hleft : left.eval context = .ok v) (hright : right.eval context = .ok w) :
    (binary op left right).eval context = op.apply v w := by
  rw [eval, hleft, hright]
  rfl

/-- Two operators agree if they make the same truth value of the values. -/
theorem agree_of_apply {op turned : BinaryOp} (hleft : left.eval context = .ok v) (hright : right.eval context = .ok w)
    (h : op.apply v w = .ok (.bool b)) (h' : turned.apply w v = .ok (.bool b)) : Agree context left right op turned b :=
  ⟨(eval_binary op hleft hright).trans h, (eval_binary turned hright hleft).trans h'⟩

/-- Where objects keep the rules for equality, equality and the four orders of two expressions agree with each other and with those of
the two turned around. Of two values that are comparable exactly one of the three, less, equal and greater, holds; values that are
not comparable are in no order. -/
theorem comparisons_agree (h : World.Lawful) (hleft : left.eval context = .ok v) (hright : right.eval context = .ok w)
    (hv : v.Legible) (hw : w.Legible) : ∃ equal below above atMost atLeast : Bool,
    Agree context left right .equal .equal equal ∧ Agree context left right .notEqual .notEqual (!equal) ∧
    Agree context left right .less .greater below ∧ Agree context left right .greater .less above ∧
    Agree context left right .lessEqual .greaterEqual atMost ∧ Agree context left right .greaterEqual .lessEqual atLeast ∧
    (v.Comparable w → [below, equal, above].count true = 1 ∧ atMost = (below || equal) ∧ atLeast = (above || equal)) ∧
    (¬v.Comparable w → below = false ∧ above = false ∧ atMost = false ∧ atLeast = false) := by
  obtain ⟨equal, hequal, hequal'⟩ := Value.looselyEquals_swap h hv hw
  obtain ⟨below, hbelow, hbelow'⟩ := Value.ordered_swap hv hw Text.before Number.lt
  obtain ⟨above, habove, habove'⟩ := Value.ordered_swap hw hv Text.before Number.lt
  obtain ⟨atMost, hatMost, hatMost'⟩ := Value.ordered_swap hv hw (fun s t => !t.before s) Number.le
  obtain ⟨atLeast, hatLeast, hatLeast'⟩ := Value.ordered_swap hw hv (fun s t => !t.before s) Number.le
  refine ⟨equal, below, above, atMost, atLeast, ?_, ?_, ?_, ?_, ?_, ?_, ?_, ?_⟩
  · exact agree_of_apply hleft hright (BinaryOp.apply_equal hequal).1 (BinaryOp.apply_equal hequal').1
  · exact agree_of_apply hleft hright (BinaryOp.apply_equal hequal).2 (BinaryOp.apply_equal hequal').2
  · exact agree_of_apply hleft hright (BinaryOp.compare_of_ordered hbelow) (BinaryOp.compare_of_ordered hbelow')
  · exact agree_of_apply hleft hright (BinaryOp.compare_of_ordered habove') (BinaryOp.compare_of_ordered habove)
  · exact agree_of_apply hleft hright (BinaryOp.compare_of_ordered hatMost) (BinaryOp.compare_of_ordered hatMost')
  · exact agree_of_apply hleft hright (BinaryOp.compare_of_ordered hatLeast') (BinaryOp.compare_of_ordered hatLeast)
  · intro hcomparable
    obtain ⟨below', equal', above', hone, h₁, h₂, h₃, h₄, h₅⟩ := hcomparable.ordered_eq
    obtain rfl : equal = equal' := Value.bool.inj (Except.ok.inj (hequal.symm.trans h₁))
    obtain rfl : below = below' := Except.ok.inj (hbelow.symm.trans h₂)
    obtain rfl : above = above' := Except.ok.inj (habove.symm.trans h₃)
    obtain rfl : atMost = !above := Except.ok.inj (hatMost.symm.trans h₄)
    obtain rfl : atLeast = !below := Except.ok.inj (hatLeast.symm.trans h₅)
    exact ⟨hone, not_eq_or_of_count hone⟩
  · intro hnot
    have hnot' : ¬w.Comparable v := fun h => hnot h.symm
    refine ⟨?_, ?_, ?_, ?_⟩
    · exact Except.ok.inj (hbelow.symm.trans (Value.ordered_of_not_comparable hv hw hnot _ _))
    · exact Except.ok.inj (habove.symm.trans (Value.ordered_of_not_comparable hw hv hnot' _ _))
    · exact Except.ok.inj (hatMost.symm.trans (Value.ordered_of_not_comparable hv hw hnot _ _))
    · exact Except.ok.inj (hatLeast.symm.trans (Value.ordered_of_not_comparable hw hv hnot' _ _))

end Expr

end

/-- The world whose objects are zeros: each equals the numbers that are zero and each other object. -/
@[reducible]
def World.zeros : World where
  __ := World.plain
  equals _ v :=
    match v with
    | .number n => .ok (some (.bool n.isZero))
    | .host _ => .ok (some (.bool true))
    | _ => .ok none

/-- Zeros keep the rules for equality. -/
theorem World.lawful_zeros : @World.Lawful World.zeros := by
  refine @Lawful.mk zeros ?_ ?_ ?_
  · intro i v answer h
    cases v <;> cases h <;> exact ⟨_, rfl⟩
  · intro i v
    cases v <;> exact ⟨_, rfl⟩
  · intro i j answer answer' h h'
    cases h
    cases h'
    rfl

/-- A text that spells seven comes before the text `42` as numbers do, an object that is a zero equals the number, and a mapping is
in no order with seven. -/
theorem Expr.comparisons_agree_mapping :
    let _ : World := .zeros
    let mapping : Value := .ofPairs [("k", 0, .int 1)]
    let context : Entries Value := [("m", mapping), ("t", .text " 7 "), ("z", .host 3)]
    (eval context (.var "t") = .ok (.int 7) ∧ (Value.int 7).Comparable (.text "42") ∧
      Agree context (.var "t") (.literal (.text "42")) .less .greater true ∧
      Agree context (.var "t") (.literal (.text "42")) .equal .equal false ∧
      Agree context (.var "t") (.literal (.text "42")) .lessEqual .greaterEqual true) ∧
    (eval context (.var "m") = .ok mapping ∧ ¬mapping.Comparable (.int 7) ∧
      Agree context (.var "m") (.var "t") .lessEqual .greaterEqual false ∧
      Agree context (.var "m") (.var "t") .greaterEqual .lessEqual false) ∧
    (eval context (.var "z") = .ok (.host 3) ∧ Agree context (.var "z") (.literal (.number (.int 0))) .equal .equal true ∧
      Agree context (.var "z") (.literal (.number (.int 0))) .notEqual .notEqual false) := by
  intro _ mapping context
  have hseven : eval context (.var "t") = .ok (.int 7) := rfl
  have htext : eval context (.literal (.text "42")) = .ok (.text "42") := rfl
  have hmapping : eval context (.var "m") = .ok mapping := rfl
  have hobject : eval context (.var "z") = .ok (.host 3) := rfl
  have hzero : eval context (.literal (.number (.int 0))) = .ok (.int 0) := rfl
  have hlegible : (Value.text "42").Legible := by
    intro t ht
    cases ht
    exact Text.legible_of_length (by decide)
  have hcomparable : (Value.int 7).Comparable (.text "42") := .inr ⟨.int 7, .int 42, rfl, rfl, nofun, nofun⟩
  have hnot : ¬mapping.Comparable (.int 7) := by
    unfold mapping Value.ofPairs
    rintro (⟨s, t, h, -⟩ | ⟨m, n, h, -⟩)
    · cases h
    · cases h
  refine ⟨⟨hseven, hcomparable, ?_⟩, ⟨hmapping, hnot, ?_⟩, hobject, ?_⟩
  · obtain ⟨equal, below, above, atMost, atLeast, hequal, -, hless, -, hmost, -, hone, -⟩ :=
      comparisons_agree World.lawful_zeros hseven htext nofun hlegible
    obtain ⟨hcount, rfl, -⟩ := hone hcomparable
    have hordered : (Value.int 7).ordered Text.before Number.lt (.text "42") = .ok ((Number.int 7).lt (.int 42)) :=
      Value.ordered_of_numbers rfl rfl (fun ⟨_, _, h, _⟩ => nomatch h) _ _
    have hlt : (Number.int 7).lt (.int 42) = true := by decide +kernel
    have hbelow := (eval_binary .less hseven htext).symm.trans hless.1
    rw [BinaryOp.apply, BinaryOp.compare_of_ordered hordered, hlt] at hbelow
    cases hbelow
    obtain rfl : equal = false := by
      revert hcount
      cases equal <;> simp
    exact ⟨hless, hequal, hmost⟩
  · obtain ⟨equal, below, above, atMost, atLeast, -, -, -, -, hmost, hleast, -, hnone⟩ :=
      comparisons_agree World.lawful_zeros hmapping hseven nofun nofun
    obtain ⟨-, -, rfl, rfl⟩ := hnone hnot
    exact ⟨hmost, hleast⟩
  · obtain ⟨equal, -, -, -, -, hequal, hnotEqual, -⟩ :=
      comparisons_agree World.lawful_zeros hobject hzero nofun nofun
    have htrue := (eval_binary .equal hobject hzero).symm.trans hequal.1
    cases htrue
    exact ⟨hequal, hnotEqual⟩

end Stencil
