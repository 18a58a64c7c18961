import Stencil.Expr.Parser

/-!
# Numerals

What the longest numeral at the start of a text is (`Numeral.take?_eq_some_iff`), and that the numeral of a natural number is read
as that number (`Expr.readNumber_numeral`).
-/

namespace Stencil

namespace Text

/-- A character outside of every row of digits is no digit. -/
theorem isDigit_eq_false {c : Char} (h : ∀ row ∈ digitZeros, c.toNat < row ∨ row + 10 ≤ c.toNat) : isDigit c = false := by
  rw [isDigit, digitValue?, Option.isSome_map, Option.isSome_eq_false_iff, Option.isNone_iff_eq_none, List.find?_eq_none]
  intro row hrow hdigit
  rw [Bool.and_eq_true, decide_eq_true_iff, decide_eq_true_iff] at hdigit
  have hapart := h row hrow
  omega

/-- A blank is no digit. -/
theorem isDigit_of_isBlank {c : Char} (h : isBlank c = true) : isDigit c = false := by
  have hapart : ∀ range ∈ blankRanges, ∀ row ∈ digitZeros, range.2 < row ∨ row + 10 ≤ range.1 := by decide
  obtain ⟨range, hrange, hblank⟩ := List.any_eq_true.1 h
  rw [Bool.and_eq_true, decide_eq_true_iff, decide_eq_true_iff] at hblank
  refine isDigit_eq_false fun row hrow => ?_
  have hrows := hapart range hrange row hrow
  omega

/-- A digit is no blank. -/
theorem isBlank_of_isDigit {c : Char} (h : isDigit c = true) : isBlank c = false := by
  rw [Bool.eq_false_iff]
  intro hc
  rw [isDigit_of_isBlank hc] at h
  cases h

/-- A letter and an underscore are no digits. -/
theorem isDigit_of_isNameStart {c : Char} (h : isNameStart c = true) : isDigit c = false := by
  have hapart : ∀ row ∈ digitZeros, row + 10 ≤ 65 ∨ 122 < row := by decide
  have hrange : 65 ≤ c.toNat ∧ c.toNat ≤ 122 := by
    rw [isNameStart, Bool.or_eq_true, decide_eq_true_iff] at h
    rcases h with h | rfl
    · change (decide (65 ≤ c.val ∧ c.val ≤ 90) || (decide (97 ≤ c.val) && decide (c.val ≤ 122))) = true at h
      simp only [Bool.or_eq_true, Bool.and_eq_true, decide_eq_true_iff, UInt32.le_iff_toNat_le] at h
      change (65 ≤ c.toNat ∧ c.toNat ≤ 90) ∨ (97 ≤ c.toNat ∧ c.toNat ≤ 122) at h
      omega
    · decide
  refine isDigit_eq_false fun row hrow => ?_
  have hrows := hapart row hrow
  omega

end Text

namespace Numeral

/-- A numeral is made of digits: some before the point and, if there is one, some after it. -/
structure Written (n : Numeral) : Prop where
  /-- There is a digit before the point. -/
  whole_ne : n.whole ≠ []
  /-- What stands before the point are digits. -/
  whole_digits : ∀ c ∈ n.whole, Text.isDigit c = true
  /-- There is a digit after a point. -/
  fraction_ne : n.fraction ≠ some []
  /-- What stands after a point are digits. -/
  fraction_digits : ∀ digits ∈ n.fraction, ∀ c ∈ digits, Text.isDigit c = true

/-- A text does not go on with a numeral. -/
structure Stops (n : Numeral) (rest : Text) : Prop where
  /-- It does not start with a digit. -/
  not_digit : ∀ c ∈ rest.head?, Text.isDigit c = false
  /-- If the numeral has no point, the text does not start with a point and a digit either. -/
  not_point : n.fraction = none → ∀ c after, rest = '.' :: c :: after → Text.isDigit c = false

theorem stops_nil (n : Numeral) : n.Stops [] := ⟨nofun, fun _ _ _ => nofun⟩

variable {n : Numeral} {t rest : Text}

/-- A numeral is taken up to where the text does not go on with it. -/
theorem Written.take?_append (hn : n.Written) (hs : n.Stops rest) : take? (n.text ++ rest) = some (n, rest) := by
  obtain ⟨whole, fraction⟩ := n
  obtain ⟨d, ds, rfl⟩ := List.exists_cons_of_ne_nil hn.whole_ne
  have hdigits : ∀ c ∈ d :: ds, Text.isDigit c = true := hn.whole_digits
  cases fraction with
  | none =>
    show take? ((d :: ds) ++ rest) = _
    unfold take?
    rw [Text.takeWhile_append hdigits hs.not_digit, Text.dropWhile_append hdigits hs.not_digit]
    simp only
    split
    · rename_i c after
      rw [if_neg (by rw [hs.not_point rfl c after rfl]; exact Bool.false_ne_true)]
    · rfl
  | some digits =>
    obtain ⟨e, es, rfl⟩ := List.exists_cons_of_ne_nil (fun h => hn.fraction_ne (congrArg some h))
    have hfraction : ∀ c ∈ e :: es, Text.isDigit c = true := hn.fraction_digits _ rfl
    have hpoint : ∀ c ∈ ('.' :: (e :: (es ++ rest))).head?, Text.isDigit c = false := by
      intro c hc
      cases hc
      decide
    have htext : text ⟨d :: ds, some (e :: es)⟩ ++ rest = (d :: ds) ++ '.' :: (e :: (es ++ rest)) := List.append_assoc ..
    have hes : ∀ c ∈ es, Text.isDigit c = true := fun c hc => hfraction c (List.mem_cons_of_mem _ hc)
    rw [htext]
    unfold take?
    rw [Text.takeWhile_append hdigits hpoint, Text.dropWhile_append hdigits hpoint]
    simp only [hfraction e List.mem_cons_self, if_true, Text.takeWhile_append hes hs.not_digit,
      Text.dropWhile_append hes hs.not_digit]

/-- What is taken is a numeral, up to where the text does not go on with it. -/
theorem take?_eq_some_iff : take? t = some (n, rest) ↔ t = n.text ++ rest ∧ n.Written ∧ n.Stops rest := by
  refine ⟨fun h => ?_, fun ⟨ht, hn, hs⟩ => ht ▸ hn.take?_append hs⟩
  have hsplit : t.takeWhile Text.isDigit ++ t.dropWhile Text.isDigit = t := List.takeWhile_append_dropWhile
  have hwhole : ∀ c ∈ t.takeWhile Text.isDigit, Text.isDigit c = true := List.all_eq_true.1 List.all_takeWhile
  have hstop : ∀ {t : Text}, ∀ c ∈ (t.dropWhile Text.isDigit).head?, Text.isDigit c = false :=
    fun c hc => Text.not_of_mem_head?_dropWhile hc
  unfold take? at h
  simp only at h
  split at h
  · cases h
  · rename_i hne
    split at h
    · rename_i d after hrest
      split at h
      · rename_i hd
        cases h
        refine ⟨?_, ⟨hne, hwhole, nofun, ?_⟩, hstop, nofun⟩
        · rw [text, List.append_assoc, List.cons_append, List.cons_append, List.takeWhile_append_dropWhile, ← hrest, hsplit]
        · intro digits hdigits c hc
          cases hdigits
          rcases List.mem_cons.1 hc with rfl | hc
          · exact hd
          · exact List.all_eq_true.1 List.all_takeWhile c hc
      · rename_i hd
        cases h
        refine ⟨hsplit.symm, ⟨hne, hwhole, nofun, nofun⟩, hstop, fun _ c after' heq => ?_⟩
        rw [hrest] at heq
        cases heq
        exact Bool.eq_false_iff.2 hd
    · rename_i hno
      cases h
      exact ⟨hsplit.symm, ⟨hne, hwhole, nofun, nofun⟩, hstop, fun _ c after heq => absurd heq (hno c after)⟩

/-- A numeral holds digits and at most a point. -/
theorem Written.mem_text (h : n.Written) {c : Char} (hc : c ∈ n.text) : Text.isDigit c = true ∨ c = '.' := by
  obtain ⟨whole, fraction⟩ := n
  cases fraction with
  | none => exact .inl (h.whole_digits c hc)
  | some digits =>
    rcases List.mem_append.1 hc with hc | hc
    · exact .inl (h.whole_digits c hc)
    · rcases List.mem_cons.1 hc with rfl | hc
      · exact .inr rfl
      · exact .inl (h.fraction_digits digits rfl c hc)

theorem Written.isBlank_eq_false (h : n.Written) {c : Char} (hc : c ∈ n.text) : Text.isBlank c = false := by
  rcases h.mem_text hc with hdigit | rfl
  · exact Text.isBlank_of_isDigit hdigit
  · rfl

/-- A numeral starts with a digit. -/
theorem Written.text_eq_cons (h : n.Written) : ∃ c tail, n.text = c :: tail ∧ Text.isDigit c = true := by
  obtain ⟨whole, fraction⟩ := n
  obtain ⟨d, ds, rfl⟩ := List.exists_cons_of_ne_nil h.whole_ne
  have hd := h.whole_digits d List.mem_cons_self
  cases fraction with
  | none => exact ⟨d, ds, rfl, hd⟩
  | some digits => exact ⟨d, ds ++ '.' :: digits, rfl, hd⟩

/-- There is a numeral exactly where there is a digit. -/
theorem take?_eq_none_iff {c : Char} : take? (c :: t) = none ↔ Text.isDigit c = false := by
  rw [Option.eq_none_iff_forall_ne_some]
  constructor
  · intro h
    rw [Bool.eq_false_iff]
    intro hc
    unfold take? at h
    simp only [List.takeWhile_cons_of_pos hc] at h
    split at h
    · split at h <;> exact h _ rfl
    · exact h _ rfl
  · rintro hc ⟨n, rest⟩ h
    obtain ⟨heq, hwritten, -⟩ := take?_eq_some_iff.1 h
    obtain ⟨d, tail, htext, hd⟩ := hwritten.text_eq_cons
    rw [htext] at heq
    cases heq
    rw [hd] at hc
    cases hc

end Numeral

/-! ## The numeral of a natural number -/

namespace Text

/-- An ASCII digit is a digit. -/
theorem isDigit_of_ascii {c : Char} (h : c.isDigit = true) : isDigit c = true := by
  have hrange : 48 ≤ c.toNat ∧ c.toNat ≤ 57 := by
    rw [Char.isDigit, Bool.and_eq_true, decide_eq_true_iff, decide_eq_true_iff] at h
    exact h
  rw [isDigit, digitValue?, Option.isSome_map, List.find?_isSome]
  refine ⟨0x30, by decide, ?_⟩
  rw [Bool.and_eq_true, decide_eq_true_iff, decide_eq_true_iff]
  omega

theorem numeralValue_concat (t : Text) (c : Char) :
    numeralValue (t ++ [c]) = 10 * numeralValue t + (digitValue? c).getD 0 := by
  rw [numeralValue, List.foldl_append]
  rfl

/-- The numeral of a natural number spells it. By induction on the number, a digit at a time from the last one. -/
theorem numeralValue_numeral (n : Nat) : numeralValue (numeral n) = n := by
  have hdigit : ∀ d < 10, (digitValue? d.digitChar).getD 0 = d := by decide
  induction n using Nat.strongRecOn with
  | _ n ih =>
  unfold numeral at ih ⊢
  by_cases hn : n < 10
  · rw [Nat.toDigits_of_lt_base hn]
    show 10 * 0 + (digitValue? n.digitChar).getD 0 = n
    rw [hdigit n hn, Nat.mul_zero, Nat.zero_add]
  · rw [Nat.toDigits_of_base_le (by decide) (by omega), numeralValue_concat, ih (n / 10) (by omega),
      hdigit (n % 10) (by omega), Nat.div_add_mod]

end Text

theorem Numeral.written_numeral (n : Nat) : Written ⟨Text.numeral n, none⟩ :=
  ⟨Nat.toDigits_ne_nil, fun _ hc => Text.isDigit_of_ascii (Nat.isDigit_of_mem_toDigits (by decide) (by decide) hc), nofun, nofun⟩

/-- A text is not cut exactly where the character does not stand in it. -/
theorem Text.splitAtFirst?_eq_none_iff {c : Char} {t : Text} : splitAtFirst? (· = c) t = none ↔ c ∉ t := by
  induction t with
  | nil => exact ⟨fun _ => List.not_mem_nil, fun _ => rfl⟩
  | cons d t ih =>
    rw [splitAtFirst?]
    by_cases hd : d = c
    · simp [hd]
    · simp only [hd, decide_false, Bool.false_eq_true, if_false, Option.map_eq_none_iff, ih, List.mem_cons, not_or]
      exact ⟨fun h => ⟨Ne.symm hd, h⟩, And.right⟩

/-- The numeral of a natural number is read as that number, if it does not have too many digits. -/
theorem Expr.readNumber_numeral {n : Nat} (h : (Text.numeral n).length ≤ digitLimit) :
    readNumber (Text.numeral n) = .ok (.int n) := by
  have hpoint : '.' ∉ Text.numeral n := by
    intro hc
    exact absurd ((Numeral.written_numeral n).whole_digits _ hc) (by decide)
  unfold readNumber
  rw [Text.splitAtFirst?_eq_none_iff.2 hpoint]
  simp only [Numeral.toNumber, readInteger, Nat.not_lt_of_le h, if_false, Text.numeralValue_numeral]
  rfl

end Stencil
