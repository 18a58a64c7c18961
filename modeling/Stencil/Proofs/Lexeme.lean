import Stencil.Expr.Lexeme
import Stencil.Proofs.Except
import Stencil.Proofs.Numeral

/-!
# Where lexemes stand and what they are made of

`Starts` lists what can start at a place of an expression, a case for each kind of lexeme, and `starts_of_start?` says that
there is nothing else. Every lexeme of an expression starts somewhere in it (`mem_scan`), and between the lexemes there is
nothing but blanks (`filter_of_scan`).
-/

namespace Stencil

namespace Lexeme

/-- `Starts c rest kind n`: a lexeme of the kind starts with the character and takes `n` more of the rest. -/
inductive Starts (c : Char) (rest : Text) : Kind → Nat → Prop
  | number {numeral : Numeral} {after : Text} : Numeral.take? (c :: rest) = some (numeral, after) →
      Starts c rest .number (numeral.text.length - 1)
  | string {n : Nat} : c = '"' ∨ c = '\'' → stringTail? c rest = some n → Starts c rest .string n
  | var {name after : Text} : c = '$' → Text.takeName? rest = some (name, after) → Starts c rest .var name.length
  | name : Text.isNameStart c = true → Starts c rest .name (rest.takeWhile Text.isNamePart).length
  | doubleSymbol : doubleSymbols.contains (c :: rest.take 1) = true → Starts c rest .symbol 1
  | singleSymbol : singleSymbols.contains c = true → Starts c rest .symbol 0

/-- Whatever starts at a place is one of those listed. -/
theorem starts_of_start? {c : Char} {rest : Text} {kind : Kind} {n : Nat} (h : start? c rest = some (kind, n)) :
    Starts c rest kind n := by
  unfold start? at h
  split at h
  · rename_i numeral after hn
    cases h
    exact .number hn
  · split at h
    · rename_i hc
      rw [Bool.or_eq_true, decide_eq_true_iff, decide_eq_true_iff] at hc
      obtain ⟨m, hm, heq⟩ := Option.map_eq_some_iff.1 h
      cases heq
      exact .string hc hm
    · split at h
      · rename_i hc
        obtain ⟨⟨name, after⟩, hname, heq⟩ := Option.map_eq_some_iff.1 h
        cases heq
        exact .var hc hname
      · split at h
        · rename_i hc
          cases h
          exact .name hc
        · split at h
          · rename_i hc
            cases h
            exact .doubleSymbol hc
          · split at h
            · rename_i hc
              cases h
              exact .singleSymbol hc
            · cases h

/-! ## The lexemes of an expression -/

/-- One step of reading lexemes: a blank is passed over, and anything else starts a lexeme. -/
theorem scan_cons_eq_ok_iff {p : Nat} {c : Char} {rest : Text} {ts : List Lexeme} :
    scan p (c :: rest) = .ok ts ↔
      (Text.isBlank c = true ∧ scan (p + 1) rest = .ok ts) ∨
      (Text.isBlank c = false ∧ ∃ kind n after, start? c rest = some (kind, n) ∧
        scan (p + 1 + n) (rest.drop n) = .ok after ∧ ts = ⟨kind, c :: rest.take n, p⟩ :: after) := by
  rw [scan]
  cases hc : Text.isBlank c with
  | true => simp only [if_true, true_and, Bool.true_eq_false, false_and, or_false]
  | false =>
    simp only [Bool.false_eq_true, if_false, false_and, true_and, false_or]
    constructor
    · intro h
      split at h
      · cases h
      · rename_i kind n hs
        obtain ⟨after, ha, h⟩ := bind_ok_iff.1 h
        exact ⟨kind, n, after, hs, ha, (Except.ok.inj h).symm⟩
    · rintro ⟨kind, n, after, hs, ha, rfl⟩
      simp only [hs, ha]
      rfl

theorem scan_blank {p : Nat} {c : Char} {rest : Text} (hc : Text.isBlank c = true) : scan p (c :: rest) = scan (p + 1) rest := by
  rw [scan, if_pos hc]

/-- One lexeme of an expression. -/
theorem scan_cons {p n : Nat} {c : Char} {rest : Text} {k : Kind} (hc : Text.isBlank c = false)
    (hs : start? c rest = some (k, n)) :
    scan p (c :: rest) = (scan (p + 1 + n) (rest.drop n)).map (⟨k, c :: rest.take n, p⟩ :: ·) := by
  rw [scan, if_neg (Bool.eq_false_iff.1 hc)]
  simp only [hs]
  cases scan (p + 1 + n) (rest.drop n) <;> rfl

theorem scan_single {p : Nat} {c : Char} {rest : Text} {k : Kind} (hc : Text.isBlank c = false)
    (hs : start? c rest = some (k, rest.length)) : scan p (c :: rest) = .ok [⟨k, c :: rest, p⟩] := by
  rw [scan_cons hc hs, List.drop_length, List.take_length, scan]
  rfl

/-- The lexemes of an expression come before the one that is its end. -/
theorem scan_of_lex {expression : Text} {lexemes : List Lexeme} {last : Lexeme}
    (h : lex expression = .ok (lexemes ++ [last])) : scan 0 expression = .ok lexemes := by
  obtain ⟨ts, hs, h⟩ := bind_ok_iff.1 h
  obtain ⟨rfl, -⟩ := List.append_inj' (Except.ok.inj h) rfl
  exact hs

/-- What holds of the lexemes of every expression, if it holds of those of none, of those after a blank, and of one lexeme and
those after it. By induction on how much of the expression is left. -/
theorem scan_induction (Holds : Nat → Text → List Lexeme → Prop) (hnil : ∀ p, Holds p [] [])
    (hblank : ∀ {p c rest ts}, Text.isBlank c = true → Holds (p + 1) rest ts → Holds p (c :: rest) ts)
    (hlexeme : ∀ {p c rest kind n after}, Text.isBlank c = false → start? c rest = some (kind, n) →
      Holds (p + 1 + n) (rest.drop n) after → Holds p (c :: rest) (⟨kind, c :: rest.take n, p⟩ :: after))
    {p : Nat} {t : Text} {ts : List Lexeme} (h : scan p t = .ok ts) : Holds p t ts := by
  induction hn : t.length using Nat.strongRecOn generalizing p t ts with
  | _ n ih =>
  cases t with
  | nil =>
    rw [scan] at h
    cases h
    exact hnil p
  | cons c rest =>
    rw [List.length_cons] at hn
    rcases scan_cons_eq_ok_iff.1 h with ⟨hc, hscan⟩ | ⟨hc, kind, k, after, hs, hscan, rfl⟩
    · exact hblank hc (ih _ (by omega) hscan rfl)
    · exact hlexeme hc hs (ih _ (by rw [List.length_drop]; omega) hscan rfl)

/-- Every lexeme of an expression starts somewhere in it. -/
theorem mem_scan {p : Nat} {t : Text} {ts : List Lexeme} (h : scan p t = .ok ts) :
    ∀ l ∈ ts, ∃ before c rest n, t = before ++ c :: rest ∧ Starts c rest l.kind n ∧ l.text = c :: rest.take n := by
  refine scan_induction (fun _ t ts => ∀ l ∈ ts, ∃ before c rest n,
    t = before ++ c :: rest ∧ Starts c rest l.kind n ∧ l.text = c :: rest.take n) ?_ ?_ ?_ h
  · exact fun _ l hl => absurd hl List.not_mem_nil
  · intro _ c rest ts _ ih l hl
    obtain ⟨before, d, after, n, rfl, hs⟩ := ih l hl
    exact ⟨c :: before, d, after, n, rfl, hs⟩
  · intro q c rest kind n after _ hstart ih l hl
    rcases List.mem_cons.1 hl with rfl | hl
    · exact ⟨[], c, rest, n, rfl, starts_of_start? hstart, rfl⟩
    · obtain ⟨before, d, more, m, heq, hs'⟩ := ih l hl
      refine ⟨c :: (rest.take n ++ before), d, more, m, ?_, hs'⟩
      rw [List.cons_append, List.append_assoc, ← heq, List.take_append_drop]

/-- Characters that are no blanks stand in an expression just as they stand in its lexemes. -/
theorem filter_of_scan {q : Char → Bool} (hq : ∀ c, Text.isBlank c = true → q c = false) {p : Nat} {t : Text}
    {ts : List Lexeme} (h : scan p t = .ok ts) : t.filter q = (ts.flatMap (·.text)).filter q := by
  refine scan_induction (fun _ t ts => t.filter q = (ts.flatMap (·.text)).filter q) (fun _ => rfl) ?_ ?_ h
  · intro _ c rest ts hc ih
    rw [List.filter_cons_of_neg (by simp [hq c hc]), ih]
  · intro _ c rest kind n after _ _ ih
    rw [List.flatMap_cons, List.filter_append, ← ih, ← List.filter_append, List.cons_append, List.take_append_drop]

end Lexeme

end Stencil
