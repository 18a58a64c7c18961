import Stencil.Evaluation.Call
import Stencil.Proofs.Assignment
import Stencil.Proofs.Grammar.Parse
import Stencil.Proofs.Spacing

/-!
# Integers as texts

An integer is written with ASCII digits and read in three ways: as the number that a text spells between blanks, as the integer
that leads a text, and as a numeral of an expression. The three agree with each other, and with what is written, on every integer
that is not too long for a text (`integer_codec`).
-/

namespace Stencil

/-! ## Blanks around a text -/

namespace Text

variable {before core after : Text}

/-- A text is what is left of it without the blanks at its ends, between blanks. -/
theorem exists_blank_trim (t : Text) :
    ∃ before after : Text, before.Blank ∧ after.Blank ∧ t = before ++ (trim t ++ after) := by
  obtain ⟨before, hbefore, hleft, -⟩ := trimLeft_eq_iff.1 (rfl : trimLeft t = trimLeft t)
  refine ⟨before, ((trimLeft t).reverse.takeWhile isBlank).reverse, hbefore, fun c hc => ?_, ?_⟩
  · exact List.all_eq_true.1 List.all_takeWhile c (List.mem_reverse.1 hc)
  · have hright : trim t ++ ((trimLeft t).reverse.takeWhile isBlank).reverse = trimLeft t := by
      rw [trim, trimRight, ← List.reverse_append, List.takeWhile_append_dropWhile, List.reverse_reverse]
    rw [hright]
    exact hleft

/-- The blanks around a text without blanks are what is taken off. -/
theorem trim_append (hbefore : before.Blank) (hafter : after.Blank) (hne : core ≠ []) (hcore : ∀ c ∈ core, isBlank c = false) :
    trim (before ++ (core ++ after)) = core := by
  have hleft : trimLeft (before ++ (core ++ after)) = core ++ after := by
    refine trimLeft_eq_iff.2 ⟨before, hbefore, rfl, fun c hc => hcore c ?_⟩
    cases core with
    | nil => exact absurd rfl hne
    | cons d core =>
      cases hc
      exact List.mem_cons_self
  have hright : (core ++ after).reverse.dropWhile isBlank = core.reverse := by
    rw [List.reverse_append]
    refine dropWhile_append (fun c hc => hafter c (List.mem_reverse.1 hc)) fun c hc => hcore c ?_
    exact List.mem_reverse.1 (List.mem_of_head? hc)
  rw [trim, hleft, trimRight, hright, List.reverse_reverse]

/-- The sign of a number as it is written. -/
def minus (negative : Bool) : Text := if negative then ['-'] else []

/-- The minus sign is a sign, and it is there exactly for a negative number. -/
theorem minus_sign (negative : Bool) : minus negative ∈ [[], ['-'], ['+']] ∧ decide (minus negative = ['-']) = negative := by
  cases negative <;> decide

theorem integerNumeral_eq (n : Int) : integerNumeral n = minus (n < 0) ++ numeral n.natAbs := by
  unfold integerNumeral minus
  by_cases hn : n < 0 <;> simp [hn]

/-- An integer is its magnitude with its sign. -/
theorem signed_natAbs (n : Int) : Binary64.signed (n < 0) n.natAbs = n := by
  unfold Binary64.signed
  by_cases hn : n < 0
  · rw [if_pos (decide_eq_true hn)]
    omega
  · rw [if_neg (by simpa using hn)]
    omega

end Text

/-! ## Numbers between blanks -/

section

variable {before after t unsigned : Text} {negative : Bool} {n : Numeral}

/-- The number that a text without its blanks and its sign spells. -/
def Numeral.read? (negative : Bool) (t : Text) : Except TooManyDigits (Option Number) :=
  match take? t with
  | some (n, []) => some <$> n.toNumber negative
  | _ => .ok none

/-- The number of a text, once its sign is known. -/
theorem Number.ofText?_eq_of_trim (h : Text.trim t = Text.minus negative ++ unsigned)
    (hunsigned : negative = false → ∀ rest, unsigned ≠ '-' :: rest) : Number.ofText? t = Numeral.read? negative unsigned := by
  unfold Number.ofText?
  rw [h]
  cases negative with
  | true => rfl
  | false =>
    have hminus : ∀ rest, unsigned = '-' :: rest → False := hunsigned rfl
    simp only [Text.minus, Bool.false_eq_true, if_false, List.nil_append]
    rfl

/-- A numeral between blanks, with a minus sign or without one, is the number that its text spells. -/
theorem Numeral.Written.ofText?_eq (hn : n.Written) (hbefore : before.Blank) (hafter : after.Blank) :
    Number.ofText? (before ++ (Text.minus negative ++ n.text ++ after)) = some <$> n.toNumber negative := by
  obtain ⟨c, tail, htext, hc⟩ := hn.text_eq_cons
  have hne : Text.minus negative ++ n.text ≠ [] := by simp [htext]
  have hcore : ∀ c ∈ Text.minus negative ++ n.text, Text.isBlank c = false := by
    intro c hc
    rcases List.mem_append.1 hc with hc | hc
    · cases negative with
      | false => cases hc
      | true =>
        rw [List.mem_singleton.1 hc]
        rfl
    · exact hn.isBlank_eq_false hc
  have hunsigned : ∀ rest, n.text ≠ '-' :: rest := by
    -- A numeral does not start with the sign.
    intro rest h
    rw [htext] at h
    obtain ⟨rfl, -⟩ := List.cons.inj h
    cases hc
  have htake : take? n.text = some (n, []) := take?_eq_some_iff.2 ⟨(List.append_nil _).symm, hn, n.stops_nil⟩
  rw [Number.ofText?_eq_of_trim (Text.trim_append hbefore hafter hne hcore) fun _ => hunsigned, read?, htake]

/-- A text spells a number only if it is a numeral between blanks, with a minus sign or without one. -/
theorem Number.ofText?_cases (t : Text) :
    (∃ (before after : Text) (negative : Bool) (n : Numeral), before.Blank ∧ after.Blank ∧ n.Written ∧
      t = before ++ (Text.minus negative ++ n.text ++ after)) ∨ Number.ofText? t = .ok none := by
  obtain ⟨before, after, hbefore, hafter, ht⟩ := Text.exists_blank_trim t
  obtain ⟨negative, unsigned, htrim, hunsigned⟩ : ∃ negative unsigned, Text.trim t = Text.minus negative ++ unsigned ∧
      (negative = false → ∀ rest, unsigned ≠ '-' :: rest) := by
    by_cases hminus : ∃ rest, Text.trim t = '-' :: rest
    · obtain ⟨rest, hminus⟩ := hminus
      exact ⟨true, rest, hminus, nofun⟩
    · exact ⟨false, Text.trim t, rfl, fun _ rest h => hminus ⟨rest, h⟩⟩
  rw [Number.ofText?_eq_of_trim htrim hunsigned, Numeral.read?]
  split
  · rename_i n htake
    obtain ⟨rfl, hn, -⟩ := Numeral.take?_eq_some_iff.1 htake
    rw [List.append_nil] at htrim
    exact .inl ⟨before, after, negative, n, hbefore, hafter, hn, htrim ▸ ht⟩
  · exact .inr rfl

/-! ## Leading integers -/

/-- A text starts with blanks, a sign or none, and a digit. -/
def LeadsWithInteger (t : Text) : Prop :=
  ∃ (before sign rest : Text) (c : Char), before.Blank ∧ sign ∈ [[], ['-'], ['+']] ∧ Text.isDigit c = true ∧
    t = before ++ (sign ++ c :: rest)

namespace Value

variable [World]

/-- The leading integer of a text, once its sign is known. -/
theorem leadingInteger?_eq_of_trimLeft {sign : Text} (h : Text.trimLeft t = sign ++ unsigned) (hsign : sign ∈ [[], ['-'], ['+']])
    (hunsigned : sign = [] → ∀ rest, unsigned ≠ '-' :: rest ∧ unsigned ≠ '+' :: rest) :
    (text t).leadingInteger? = if unsigned.takeWhile Text.isDigit = [] then .ok none
      else some <$> Obstacle.ofDigits (readInteger (sign = ['-']) (unsigned.takeWhile Text.isDigit)) := by
  unfold leadingInteger?
  rw [toText]
  simp only [List.mem_cons, List.not_mem_nil, or_false] at hsign
  rcases hsign with rfl | rfl | rfl
  · have hminus : ∀ rest, unsigned = '-' :: rest → False := fun rest => (hunsigned rfl rest).1
    have hplus : ∀ rest, unsigned = '+' :: rest → False := fun rest => (hunsigned rfl rest).2
    simp only [h, bind, Except.bind, List.nil_append]
    cases unsigned.takeWhile Text.isDigit <;> rfl
  all_goals
    simp only [h, bind, Except.bind, List.cons_append, List.nil_append]
    cases unsigned.takeWhile Text.isDigit <;> rfl

/-- Digits behind blanks and a sign, up to where they end, are the integer that leads a text. -/
theorem leadingInteger?_text {sign digits rest : Text} (hbefore : before.Blank) (hsign : sign ∈ [[], ['-'], ['+']])
    (hne : digits ≠ []) (hdigits : ∀ c ∈ digits, Text.isDigit c = true) (hrest : ∀ c ∈ rest.head?, Text.isDigit c = false) :
    (text (before ++ (sign ++ (digits ++ rest)))).leadingInteger? =
      some <$> Obstacle.ofDigits (readInteger (sign = ['-']) digits) := by
  obtain ⟨d, ds, rfl⟩ := List.exists_cons_of_ne_nil hne
  have hd : Text.isDigit d = true := hdigits d List.mem_cons_self
  have hsigns : sign = [] ∨ sign = ['-'] ∨ sign = ['+'] := by simpa using hsign
  have hleft : Text.trimLeft (before ++ (sign ++ (d :: ds ++ rest))) = sign ++ (d :: ds ++ rest) := by
    refine Text.trimLeft_eq_iff.2 ⟨before, hbefore, rfl, fun c hc => ?_⟩
    rcases hsigns with rfl | rfl | rfl <;> cases hc
    · exact Text.isBlank_of_isDigit hd
    · rfl
    · rfl
  have hunsigned : sign = [] → ∀ after, d :: ds ++ rest ≠ '-' :: after ∧ d :: ds ++ rest ≠ '+' :: after := by
    intro _ after
    constructor
    all_goals
      intro h
      obtain ⟨rfl, -⟩ := List.cons.inj h
      cases hd
  rw [leadingInteger?_eq_of_trimLeft hleft hsign hunsigned, Text.takeWhile_append hdigits hrest, if_neg hne]

/-- The integer that leads a text is spelled by the digits behind its blanks and its sign. -/
theorem leadingInteger?_of_leadsWithInteger (h : LeadsWithInteger t) :
    ∃ negative digits, (text t).leadingInteger? = some <$> Obstacle.ofDigits (readInteger negative digits) := by
  obtain ⟨before, sign, rest, c, hbefore, hsign, hc, rfl⟩ := h
  have hdigits : ∀ d ∈ (c :: rest).takeWhile Text.isDigit, Text.isDigit d = true :=
    List.all_eq_true.1 List.all_takeWhile
  have hne : (c :: rest).takeWhile Text.isDigit ≠ [] := by simp [hc]
  have hrest : ∀ d ∈ ((c :: rest).dropWhile Text.isDigit).head?, Text.isDigit d = false :=
    fun d hd => Text.not_of_mem_head?_dropWhile hd
  have hread := leadingInteger?_text hbefore hsign hne hdigits hrest
  rw [List.takeWhile_append_dropWhile] at hread
  exact ⟨_, _, hread⟩

/-- No integer leads a text exactly if the text does not start with blanks, a sign or none, and a digit. -/
theorem leadingInteger?_eq_none_iff : (text t).leadingInteger? = .ok none ↔ ¬LeadsWithInteger t := by
  constructor
  · intro h hleads
    obtain ⟨negative, digits, hread⟩ := leadingInteger?_of_leadsWithInteger hleads
    rw [h] at hread
    cases hinteger : readInteger negative digits <;> rw [hinteger] at hread <;> cases hread
  · intro h
    obtain ⟨before, hbefore, ht, -⟩ := Text.trimLeft_eq_iff.1 (rfl : Text.trimLeft t = Text.trimLeft t)
    obtain ⟨sign, unsigned, hsign, hleft, hunsigned⟩ : ∃ sign unsigned : Text, sign ∈ [[], ['-'], ['+']] ∧
        Text.trimLeft t = sign ++ unsigned ∧ (sign = [] → ∀ rest, unsigned ≠ '-' :: rest ∧ unsigned ≠ '+' :: rest) := by
      by_cases hminus : ∃ rest, Text.trimLeft t = '-' :: rest
      · obtain ⟨rest, hminus⟩ := hminus
        exact ⟨['-'], rest, by simp, hminus, nofun⟩
      · by_cases hplus : ∃ rest, Text.trimLeft t = '+' :: rest
        · obtain ⟨rest, hplus⟩ := hplus
          exact ⟨['+'], rest, by simp, hplus, nofun⟩
        · exact ⟨[], Text.trimLeft t, by simp, rfl, fun _ rest => ⟨fun heq => hminus ⟨rest, heq⟩, fun heq => hplus ⟨rest, heq⟩⟩⟩
    rw [leadingInteger?_eq_of_trimLeft hleft hsign hunsigned]
    split
    · rfl
    · rename_i hdigits
      cases unsigned with
      | nil => exact absurd rfl hdigits
      | cons c rest =>
        cases hc : Text.isDigit c with
        | false => exact absurd (List.takeWhile_cons_of_neg (by simp [hc])) hdigits
        | true => exact absurd ⟨before, sign, rest, c, hbefore, hsign, hc, by rw [← hleft]; exact ht⟩ h

end Value

/-! ## Writing and reading integers -/

/-- A numeral has at most so many digits as the power of ten above it. -/
theorem Text.length_numeral_le_iff {n k : Nat} (hk : 0 < k) : (numeral n).length ≤ k ↔ n < Binary64.tenTo k :=
  Nat.length_toDigits_le_iff (by decide) hk

/-- An integer that is not too long for a text is written as its numeral. -/
theorem Value.toText_int [World] {z : Int} (h : (Text.numeral z.natAbs).length ≤ digitLimit) :
    (Value.int z).toText = .ok (Text.minus (z < 0) ++ Text.numeral z.natAbs) := by
  have hlt : z.natAbs < Binary64.tenTo digitLimit := (Text.length_numeral_le_iff (by decide)).1 h
  show Obstacle.ofDigits (writeInteger z) = _
  rw [writeInteger, if_pos hlt, Text.integerNumeral_eq]
  rfl

/-- The digits of an integer that is not too long for a text are read as it. -/
theorem readInteger_numeral {z : Int} (h : (Text.numeral z.natAbs).length ≤ digitLimit) :
    readInteger (z < 0) (Text.numeral z.natAbs) = .ok z := by
  rw [readInteger, if_neg (Nat.not_lt.2 h), Text.numeralValue_numeral, Text.signed_natAbs]

/-- Digits without a point, between blanks and with a minus sign or without one, are the integer that they spell. -/
theorem Value.coerced_digits {digits : Text} (hn : Numeral.Written ⟨digits, none⟩) (hbefore : before.Blank) (hafter : after.Blank) :
    (Value.text (before ++ (Text.minus negative ++ digits ++ after))).coerced = Value.int <$> readInteger negative digits := by
  have hread : Number.ofText? (before ++ (Text.minus negative ++ digits ++ after)) =
      some <$> Numeral.toNumber negative ⟨digits, none⟩ := hn.ofText?_eq hbefore hafter
  rw [coerced, hread, Numeral.toNumber]
  cases readInteger negative digits <;> rfl

/-- What the text of a value that spells an integer is made of. -/
theorem Value.digits_of_coerced {z : Int} (h : (Value.text t).coerced = .ok (.int z)) :
    ∃ (before after : Text) (negative : Bool) (digits : Text), before.Blank ∧ after.Blank ∧ Numeral.Written ⟨digits, none⟩ ∧
      t = before ++ (Text.minus negative ++ digits ++ after) ∧ readInteger negative digits = .ok z := by
  obtain ⟨before, after, negative, ⟨whole, fraction⟩, hbefore, hafter, hn, rfl⟩ | hnone := Number.ofText?_cases t
  · rw [coerced, hn.ofText?_eq hbefore hafter, Numeral.toNumber] at h
    cases fraction with
    | some digits => cases h
    | none =>
      refine ⟨before, after, negative, whole, hbefore, hafter, hn, rfl, ?_⟩
      cases hread : readInteger negative whole with
      | error e =>
        simp only [hread] at h
        cases h
      | ok y =>
        simp only [hread] at h
        cases h
        rfl
  · rw [coerced, hnone] at h
    cases h

/-- The integer that a text spells between blanks is the one that leads it. -/
theorem Value.parseInt_of_coerced [World] {z : Int} (h : (Value.text t).coerced = .ok (.int z)) : (Value.text t).parseInt = .ok z := by
  obtain ⟨before, after, negative, digits, hbefore, hafter, hn, rfl, hread⟩ := digits_of_coerced h
  have hsign := Text.minus_sign negative
  have hend : ∀ c ∈ after.head?, Text.isDigit c = false :=
    fun c hc => Text.isDigit_of_isBlank (hafter c (List.mem_of_head? hc))
  rw [List.append_assoc, parseInt, leadingInteger?_text hbefore hsign.1 hn.whole_ne hn.whole_digits hend, hsign.2, hread]
  rfl

/-! ## Numerals of expressions -/

namespace Expr

/-- An expression of one numeral is the number that it spells. -/
theorem outcome_level_number {l : Lexeme} (h : l.kind = .number) (stop k : Nat) :
    outcome (level stop k [l]) = match readNumber l.text with
      | .ok n => .ok (.literal (.number n), [])
      | .error e => .error (.tooManyDigits e) := by
  have hunary : l.unaryOp? = none := by rw [Lexeme.unaryOp?, h, if_neg (by decide)]
  induction k with
  | zero =>
    rw [outcome_level_zero, outcome_operand_none stop hunary, outcome_primary, h]
    cases readNumber l.text with
    | error e => rfl
    | ok n => exact outcome_suffixes_nil stop _
  | succ k ih =>
    rw [outcome_level_succ, ih]
    cases readNumber l.text with
    | error e => rfl
    | ok n => exact outcome_chain_nil stop k _

/-- A numeral by itself is read as the number that it spells. -/
theorem parse_number (hn : n.Written) :
    parse n.text = match readNumber n.text with
      | .ok x => .ok (.literal (.number x))
      | .error e => .error (.tooManyDigits e) := by
  obtain ⟨c, tail, htext, hblank, hstart⟩ := Lexeme.Form.stands_number hn
  have htext : n.text = c :: tail := htext
  have hscan : Lexeme.scan 0 n.text = .ok [⟨.number, n.text, 0⟩] := by
    rw [htext]
    exact Lexeme.scan_single hblank hstart
  rw [parse_eq hscan (List.cons_ne_nil _ _), outcome_level_number rfl]
  cases readNumber n.text <;> rfl

/-- Digits without a point are read as the integer that they spell. -/
theorem readNumber_digits {digits : Text} (h : '.' ∉ digits) : readNumber digits = Number.int <$> readInteger false digits := by
  unfold readNumber
  rw [Text.splitAtFirst?_eq_none_iff.2 h]
  simp only [Numeral.toNumber]
  cases readInteger false digits <;> rfl

end Expr

/-- A numeral lexeme is a numeral. -/
theorem Lexeme.written_of_mem_lex {expression : Text} {lexemes : List Lexeme} (h : lex expression = .ok lexemes) {l : Lexeme}
    (hl : l ∈ lexemes) (hk : l.kind = .number) : ∃ n : Numeral, n.Written ∧ l.text = n.text := by
  obtain ⟨ts, hscan, h⟩ := bind_ok_iff.1 h
  cases h
  rcases List.mem_append.1 hl with hl | hl
  · obtain ⟨before, c, rest, k, -, hstarts, htext⟩ := mem_scan hscan l hl
    rw [hk] at hstarts
    cases hstarts with
    | @number n after htake =>
      obtain ⟨heq, hn, -⟩ := Numeral.take?_eq_some_iff.1 htake
      refine ⟨n, hn, ?_⟩
      obtain ⟨d, tail, hcons, -⟩ := hn.text_eq_cons
      rw [hcons] at heq ⊢
      obtain ⟨rfl, hrest⟩ := List.cons.inj heq
      have htake : rest.take tail.length = tail := by
        rw [hrest]
        exact List.take_left
      rw [htext, hcons, List.length_cons, Nat.add_sub_cancel, htake]
  · rw [List.mem_singleton.1 hl] at hk
    cases hk

/-! ## The codec -/

/-- What is written of an integer is read as it, between blanks and at the start of a text. -/
theorem Value.read_toText [World] {z : Int} (h : (Text.numeral z.natAbs).length ≤ digitLimit) :
    ∃ t, (Value.int z).toText = .ok t ∧
      (∀ before after : Text, before.Blank → after.Blank → (Value.text (before ++ (t ++ after))).coerced = .ok (.int z)) ∧
      ∀ before rest : Text, before.Blank → (∀ c ∈ rest.head?, Text.isDigit c = false) →
        (Value.text (before ++ (t ++ rest))).parseInt = .ok z := by
  have hn := Numeral.written_numeral z.natAbs
  refine ⟨_, toText_int h, fun before after hbefore hafter => ?_, fun before rest hbefore hrest => ?_⟩
  · rw [coerced_digits hn hbefore hafter, readInteger_numeral h]
    rfl
  · have hsign := Text.minus_sign (z < 0)
    rw [List.append_assoc, parseInt, leadingInteger?_text hbefore hsign.1 hn.whole_ne hn.whole_digits hrest, hsign.2,
      readInteger_numeral h]
    rfl

/-- A numeral without a point is one integer to an expression and to a text, or too long for both. -/
theorem Numeral.Written.literal_digits {digits : Text} (hn : Written ⟨digits, none⟩) :
    (∃ z, Expr.readNumber digits = .ok (.int z) ∧ Expr.parse digits = .ok (.literal (.number (.int z))) ∧
        (Value.text digits).coerced = .ok (.int z)) ∨
      digitLimit < digits.length ∧ Expr.readNumber digits = .error ⟨some digits.length⟩ ∧
        Expr.parse digits = .error (.tooManyDigits ⟨some digits.length⟩) ∧
        (Value.text digits).coerced = .error ⟨some digits.length⟩ := by
  have hpoint : '.' ∉ digits := fun h => absurd (hn.whole_digits _ h) (by decide)
  have hnumber := Expr.readNumber_digits hpoint
  have hparse : Expr.parse digits = match Expr.readNumber digits with
      | .ok n => .ok (.literal (.number n))
      | .error e => .error (.tooManyDigits e) := Expr.parse_number hn
  have hcoerced : (Value.text digits).coerced = Value.int <$> readInteger false digits := by
    have hnone : Text.Blank [] := nofun
    have h : (Value.text ([] ++ (Text.minus false ++ digits ++ []))).coerced = Value.int <$> readInteger false digits :=
      Value.coerced_digits hn hnone hnone
    rwa [List.append_nil] at h
  rw [hparse, hcoerced, hnumber]
  by_cases hlong : digitLimit < digits.length
  · right
    rw [readInteger, if_pos hlong]
    exact ⟨hlong, rfl, rfl, rfl⟩
  · left
    rw [readInteger, if_neg hlong]
    exact ⟨_, rfl, rfl, rfl⟩

/-- A text is read as the integer that leads it, and has too many digits otherwise. -/
theorem Value.parseInt_of_leadsWithInteger [World] (h : LeadsWithInteger t) : (∃ z, (Value.text t).parseInt = .ok z) ∨
    ∃ count, digitLimit < count ∧ (Value.text t).parseInt = .error (.tooManyDigits ⟨some count⟩) := by
  obtain ⟨negative, digits, hread⟩ := leadingInteger?_of_leadsWithInteger h
  rw [parseInt, hread, readInteger]
  by_cases hlong : digitLimit < digits.length
  · rw [if_pos hlong]
    exact .inr ⟨_, hlong, rfl⟩
  · rw [if_neg hlong]
    exact .inl ⟨_, rfl⟩

/-- A text is read as no integer exactly if none leads it. -/
theorem Value.parseInt_eq_noLeadingInteger_iff [World] :
    (Value.text t).parseInt = .error (.noLeadingInteger (.text t)) ↔ ¬LeadsWithInteger t := by
  constructor
  · intro h hleads
    rcases parseInt_of_leadsWithInteger hleads with ⟨z, hz⟩ | ⟨count, -, hcount⟩
    · rw [hz] at h
      cases h
    · rw [hcount] at h
      cases h
  · intro h
    rw [parseInt, leadingInteger?_eq_none_iff.2 h]
    rfl

/-- What is written of an integer and read in any of the three ways is that integer: between blanks it is the number of the text,
and before anything but a digit it is the integer that leads the text. A text that spells an integer is led by it, a numeral of
an expression without a point is the integer that its text spells unless it has too many digits for both, and a text is led by no
integer exactly if it does not start with blanks, a sign or none, and a digit. -/
theorem integer_codec [World] :
    (∀ z : Int, (Text.numeral z.natAbs).length ≤ digitLimit → ∃ t, (Value.int z).toText = .ok t ∧
      (∀ before after : Text, before.Blank → after.Blank → (Value.text (before ++ (t ++ after))).coerced = .ok (.int z)) ∧
      ∀ before rest : Text, before.Blank → (∀ c ∈ rest.head?, Text.isDigit c = false) →
        (Value.text (before ++ (t ++ rest))).parseInt = .ok z) ∧
    (∀ (t : Text) (z : Int), (Value.text t).coerced = .ok (.int z) → (Value.text t).parseInt = .ok z) ∧
    (∀ (expression : Text) (lexemes : List Lexeme), Lexeme.lex expression = .ok lexemes →
      ∀ l ∈ lexemes, l.kind = .number → '.' ∉ l.text →
        (∃ z, Expr.readNumber l.text = .ok (.int z) ∧ Expr.parse l.text = .ok (.literal (.number (.int z))) ∧
          (Value.text l.text).coerced = .ok (.int z)) ∨
        digitLimit < l.text.length ∧ Expr.readNumber l.text = .error ⟨some l.text.length⟩ ∧
          Expr.parse l.text = .error (.tooManyDigits ⟨some l.text.length⟩) ∧
          (Value.text l.text).coerced = .error ⟨some l.text.length⟩) ∧
    ∀ t : Text, ((Value.text t).parseInt = .error (.noLeadingInteger (.text t)) ↔ ¬LeadsWithInteger t) ∧
      (LeadsWithInteger t → (∃ z, (Value.text t).parseInt = .ok z) ∨
        ∃ count, digitLimit < count ∧ (Value.text t).parseInt = .error (.tooManyDigits ⟨some count⟩)) := by
  refine ⟨fun z h => Value.read_toText h, fun t z h => Value.parseInt_of_coerced h, ?_, fun t =>
    ⟨Value.parseInt_eq_noLeadingInteger_iff, Value.parseInt_of_leadsWithInteger⟩⟩
  intro expression lexemes hlex l hl hk hpoint
  obtain ⟨⟨whole, fraction⟩, hn, htext⟩ := Lexeme.written_of_mem_lex hlex hl hk
  cases fraction with
  | none => exact htext ▸ hn.literal_digits
  | some digits =>
    refine absurd ?_ hpoint
    rw [htext]
    exact List.mem_append_right _ List.mem_cons_self

open scoped World in
/-- Minus seven between blanks and before letters, a text with a plus sign, the numeral `007`, and a text that no integer leads. -/
theorem integer_codec_minus_seven :
    ((Text.numeral (-7 : Int).natAbs).length ≤ digitLimit ∧ (Value.int (-7)).toText = .ok "-7" ∧
      (Value.text " -7\t").coerced = .ok (.int (-7)) ∧ (Value.text "\n-7px").parseInt = .ok (-7)) ∧
    ((Value.text " 042 ").coerced = .ok (.int 42) ∧ (Value.text " 042 ").parseInt = .ok 42) ∧
    (Lexeme.lex "007" = .ok [⟨.number, "007", 0⟩, ⟨.finish, [], 3⟩] ∧ Expr.parse "007" = .ok (.literal (.number (.int 7))) ∧
      (Value.text "007").coerced = .ok (.int 7)) ∧
    (LeadsWithInteger "+12px" ∧ ∃ z, (Value.text "+12px").parseInt = .ok z) ∧
    ¬LeadsWithInteger "x1" ∧ (Value.text "x1").parseInt = .error (.noLeadingInteger (.text "x1")) := by
  obtain ⟨hwritten, hspelled, hnumeral, hleading⟩ := integer_codec
  have hshort : (Text.numeral (-7 : Int).natAbs).length ≤ digitLimit := by decide
  have hspace : Text.Blank " " := fun c hc => by
    rw [List.mem_singleton.1 hc]
    rfl
  have htab : Text.Blank "\t" := fun c hc => by
    rw [List.mem_singleton.1 hc]
    rfl
  have hline : Text.Blank "\n" := fun c hc => by
    rw [List.mem_singleton.1 hc]
    rfl
  refine ⟨?_, ?_, ?_, ?_, ?_⟩
  · obtain ⟨t, ht, hcoerced, hparsed⟩ := hwritten (-7) hshort
    have htext : (Value.int (-7)).toText = .ok "-7" := Value.toText_int hshort
    rw [htext] at ht
    cases ht
    refine ⟨hshort, htext, hcoerced " " "\t" hspace htab, hparsed "\n" "px" hline fun c hc => ?_⟩
    cases hc
    rfl
  · have hcoerced : (Value.text " 042 ").coerced = .ok (.int 42) := rfl
    exact ⟨hcoerced, hspelled _ _ hcoerced⟩
  · have hlex : Lexeme.lex "007" = .ok [⟨.number, "007", 0⟩, ⟨.finish, [], 3⟩] := by
      have hscan : Lexeme.scan 0 ['0', '0', '7'] = .ok [⟨.number, ['0', '0', '7'], 0⟩] := Lexeme.scan_single rfl rfl
      exact bind_ok_iff.2 ⟨_, hscan, rfl⟩
    have hcoerced : (Value.text "007").coerced = .ok (.int 7) := rfl
    rcases hnumeral "007" _ hlex _ List.mem_cons_self rfl (by decide) with ⟨z, -, hparse, hz⟩ | ⟨hlong, -⟩
    · rw [hcoerced] at hz
      cases hz
      exact ⟨hlex, hparse, hcoerced⟩
    · exact absurd hlong (by decide)
  · have hleads : LeadsWithInteger "+12px" := ⟨[], "+", "2px", '1', by decide, by decide, rfl, rfl⟩
    rcases (hleading "+12px").2 hleads with ⟨z, hz⟩ | ⟨count, -, hcount⟩
    · exact ⟨hleads, z, hz⟩
    · cases hcount
  · have hread : (Value.text "x1").parseInt = .error (.noLeadingInteger (.text "x1")) := rfl
    exact ⟨(hleading "x1").1.1 hread, hread⟩

end

end Stencil
