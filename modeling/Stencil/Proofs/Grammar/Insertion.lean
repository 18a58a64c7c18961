import Stencil.Proofs.Grammar.Spacing
import Stencil.Proofs.Segmentation

/-!
# Blanks put in between lexemes

Blanks may be put into an expression wherever they do not cut a lexeme: before the first, after the last and anywhere between two.
The lexemes stay what they are and only move (`scan_insert`), since what was the longest lexeme at a place still is
(`Longest.insert`). So the expression is read as the same tree or not at all (`lex_insert`).
-/

namespace Stencil.Lexeme

variable {kind : Kind} {text longer t before after blanks : Text} {p place k : Nat} {ts lexemes : List Lexeme}

/-! ## Blanks behind a lexeme -/

/-- Only strings hold blanks. -/
theorem Spelled.isBlank_eq_false (h : Spelled kind text) (hk : kind ≠ .string) : ∀ c ∈ text, Text.isBlank c = false := by
  have hname : ∀ {n : Text}, Text.isName n = true → ∀ c ∈ n, Text.isBlank c = false :=
    fun hn c hc => Text.isBlank_of_isNamePart (Text.isNamePart_of_mem hn hc)
  cases h with
  | number hn => exact fun c hc => hn.isBlank_eq_false hc
  | string => exact absurd rfl hk
  | var hn => exact List.forall_mem_cons.2 ⟨rfl, hname hn⟩
  | name hn => exact hname hn
  | symbol hs =>
    have hall : symbols.all fun s => !s.any Text.isBlank := by decide
    simpa using List.all_eq_true.1 hall _ hs

/-- No string is the start of a longer one. -/
theorem Spelled.length_le_of_string (h : Spelled .string text) (hlonger : Spelled .string longer) (hstarts : text <+: longer) :
    longer.length ≤ text.length := by
  obtain ⟨c, tail, htext, -, hstart⟩ := h.stands
  obtain rfl : text = c :: tail := htext
  obtain ⟨more, rfl⟩ := hstarts
  have hbehind : start? c (tail ++ more) = some (.string, tail.length) := start?_append hstart trivial
  exact length_le_of_start? hbehind hlonger (List.prefix_refl _)

/-- The longest lexeme at a place still is the longest when blanks are put in somewhere behind it. -/
theorem Longest.insert (h : Longest kind text (text ++ (before ++ after))) (hblanks : blanks.Blank) :
    Longest kind text (text ++ (before ++ (blanks ++ after))) := by
  refine ⟨h.spelled, List.prefix_append _ _, fun longer hlonger hstarts => ?_⟩
  by_cases hk : kind = .string
  · subst hk
    rcases Nat.le_total longer.length text.length with hle | hle
    · exact hle
    · exact h.spelled.length_le_of_string hlonger (List.prefix_of_prefix_length_le (List.prefix_append _ _) hstarts hle)
  · cases blanks with
    | nil => exact h.length_le longer hlonger hstarts
    | cons d blanks =>
      -- A longer lexeme has no blank in it, so it ends before the first of those put in.
      have hshort : longer.length ≤ (text ++ before).length := by
        by_contra! hlt
        have hheld : (text ++ before) ++ [d] <+: longer := by
          refine List.prefix_of_prefix_length_le ⟨blanks ++ after, by simp⟩ hstarts ?_
          rw [List.length_append, List.length_singleton]
          exact hlt
        have hd := hlonger.isBlank_eq_false hk d (hheld.subset (List.mem_append_right _ (List.mem_singleton_self d)))
        exact Bool.false_ne_true (hd.symm.trans (hblanks d List.mem_cons_self))
      rw [← List.append_assoc] at hstarts
      have hwhole := List.prefix_of_prefix_length_le hstarts (List.prefix_append _ _) hshort
      refine h.length_le longer hlonger (hwhole.trans ?_)
      rw [← List.append_assoc]
      exact List.prefix_append _ _

/-! ## Moved lexemes -/

/-- A lexeme at its position after so many characters have been put in at a place. -/
def moved (place k : Nat) (l : Lexeme) : Lexeme := if place ≤ l.position then { l with position := l.position + k } else l

theorem form_moved (place k : Nat) (l : Lexeme) : (l.moved place k).form = l.form := by
  unfold moved
  split <;> rfl

theorem moved_of_lt {l : Lexeme} (h : l.position < place) : l.moved place k = l := if_neg (Nat.not_le.2 h)

/-- Reading further on in a text finds the same lexemes there, each so much further on. -/
theorem scan_shift (h : scan p t = .ok ts) (hplace : place ≤ p) : scan (p + k) t = .ok (ts.map (moved place k)) := by
  revert hplace
  refine scan_induction (fun p t ts => place ≤ p → scan (p + k) t = .ok (ts.map (moved place k))) ?_ ?_ ?_ h
  · intro p _
    rw [scan]
    rfl
  · intro p c rest ts hc ih hplace
    rw [scan_blank hc, Nat.add_right_comm]
    exact ih (Nat.le_succ_of_le hplace)
  · intro p c rest kind n after hc hstart ih hplace
    have hmoved : (⟨kind, c :: rest.take n, p⟩ : Lexeme).moved place k = ⟨kind, c :: rest.take n, p + k⟩ := if_pos hplace
    rw [scan_cons hc hstart, show p + k + 1 + n = p + 1 + n + k by omega, ih (by omega), List.map_cons, hmoved]
    rfl

/-- Blanks are passed over. -/
theorem scan_blanks (hblanks : blanks.Blank) : scan p (blanks ++ t) = scan (p + blanks.length) t := by
  induction blanks generalizing p with
  | nil => rfl
  | cons c blanks ih =>
    obtain ⟨hc, hrest⟩ := List.forall_mem_cons.1 hblanks
    rw [List.cons_append, scan_blank hc, ih hrest, List.length_cons, Nat.add_assoc, Nat.add_comm 1]

/-- Blanks put in where they cut no lexeme move the lexemes behind them, and nothing else. By induction on what comes before
them. -/
theorem scan_insert (hblanks : blanks.Blank) (h : scan p (before ++ after) = .ok ts)
    (hcut : ∀ l ∈ ts, l.stop ≤ p + before.length ∨ p + before.length ≤ l.position) :
    scan p (before ++ (blanks ++ after)) = .ok (ts.map (moved (p + before.length) blanks.length)) := by
  induction hn : before.length using Nat.strongRecOn generalizing p before ts with
  | _ n ih =>
  cases before with
  | nil =>
    cases hn
    rw [List.nil_append, scan_blanks hblanks]
    exact scan_shift h (Nat.le_refl p)
  | cons c before =>
    rw [List.length_cons] at hn hcut
    rw [List.cons_append] at h
    rcases scan_cons_eq_ok_iff.1 h with ⟨hc, hscan⟩ | ⟨hc, kind, m, behind, hstart, hscan, rfl⟩
    · rw [List.cons_append, scan_blank hc, ih _ (by omega) hscan (fun l hl => by have := hcut l hl; omega) rfl]
      rw [show p + 1 + before.length = p + n by omega]
    · obtain ⟨hm, -⟩ := start?_eq_some_iff.1 hstart
      obtain ⟨hfirst, hothers⟩ := List.forall_mem_cons.1 hcut
      -- The first lexeme starts before the place, so it ends there at the latest.
      have hle : m ≤ before.length := by
        replace hfirst : p + 1 + m ≤ p + (before.length + 1) ∨ p + (before.length + 1) ≤ p := by
          rwa [stop_eq rfl hm rfl] at hfirst
        omega
      obtain ⟨used, left, rfl, rfl⟩ : ∃ used left, before = used ++ left ∧ m = used.length :=
        ⟨before.take m, before.drop m, (List.take_append_drop m before).symm, (List.length_take_of_le hle).symm⟩
      rw [List.append_assoc] at hstart hscan
      rw [List.drop_left] at hscan
      rw [List.length_append] at hn hothers
      have hlongest : Longest kind (c :: used) (c :: used ++ (left ++ (blanks ++ after))) :=
        (start?_append_iff.1 hstart).insert hblanks
      rw [List.cons_append, List.append_assoc, List.append_assoc, scan_cons hc (start?_append_iff.2 hlongest), List.drop_left,
        List.take_left, List.take_left, ih _ (by omega) hscan (fun l hl => by have := hothers l hl; omega) rfl, List.map_cons,
        moved_of_lt (l := ⟨kind, c :: used, p⟩) (show p < p + n by omega)]
      rw [show p + 1 + used.length + left.length = p + n by omega]
      rfl

/-- Blanks put into an expression where they cut no lexeme move the lexemes behind them, and nothing else: kinds and texts stay as
they are. So the expression is read as the same tree, or not at all if it was not before. -/
theorem lex_insert (h : lex (before ++ after) = .ok lexemes)
    (hcut : ∀ l ∈ lexemes, l.stop ≤ before.length ∨ before.length ≤ l.position) (hblanks : blanks.Blank) :
    lex (before ++ (blanks ++ after)) = .ok (lexemes.map (moved before.length blanks.length)) ∧
      (lexemes.map (moved before.length blanks.length)).map form = lexemes.map form ∧
      ∀ e, Expr.parse (before ++ (blanks ++ after)) = .ok e ↔ Expr.parse (before ++ after) = .ok e := by
  have hforms : ∀ ts : List Lexeme, (ts.map (moved before.length blanks.length)).map form = ts.map form := by
    intro ts
    rw [List.map_map]
    exact List.map_congr_left fun l _ => form_moved _ _ l
  obtain ⟨ts, hscan, hlexemes⟩ := bind_ok_iff.1 h
  obtain rfl := Except.ok.inj hlexemes
  have hscan' := scan_insert hblanks hscan (fun l hl => by
    have := hcut l (List.mem_append_left _ hl)
    omega)
  rw [Nat.zero_add] at hscan'
  refine ⟨?_, hforms _, fun e => ?_⟩
  · have hend : (⟨.finish, [], (before ++ after).length⟩ : Lexeme).moved before.length blanks.length =
        ⟨.finish, [], (before ++ (blanks ++ after)).length⟩ := by
      unfold moved
      simp only [List.length_append, Nat.le_add_right, if_true, Lexeme.mk.injEq, true_and]
      omega
    rw [lex, hscan', List.map_append, List.map_singleton, hend]
    rfl
  · rw [Expr.parse_eq_ok_iff hscan', Expr.parse_eq_ok_iff hscan]
    exact ⟨fun hd => hd.of_forms (hforms ts).symm, fun hd => hd.of_forms (hforms ts)⟩

/-- A tab and a line break between `<` and a sign. -/
theorem lex_insert_comparison :
    lex "1<\t\n-$x" =
      .ok [⟨.number, "1", 0⟩, ⟨.symbol, "<", 1⟩, ⟨.symbol, "-", 4⟩, ⟨.var, "$x", 5⟩, ⟨.finish, [], 7⟩] ∧
      ∀ e, Expr.parse "1<\t\n-$x" = .ok e ↔ Expr.parse "1<-$x" = .ok e := by
  have hread : lex (['1', '<'] ++ ['-', '$', 'x']) =
      .ok [⟨.number, "1", 0⟩, ⟨.symbol, "<", 1⟩, ⟨.symbol, "-", 2⟩, ⟨.var, "$x", 3⟩, ⟨.finish, [], 5⟩] := by
    rw [lex, List.cons_append, scan_cons (k := .number) (n := 0) rfl rfl, List.drop_zero, List.cons_append,
      scan_cons (k := .symbol) (n := 0) rfl rfl, List.drop_zero, List.nil_append,
      scan_cons (k := .symbol) (n := 0) rfl rfl, List.drop_zero, scan_single (k := .var) rfl rfl]
    rfl
  obtain ⟨hlex, -, hparse⟩ := lex_insert hread (by decide) (show Text.Blank ['\t', '\n'] by decide)
  exact ⟨hlex, hparse⟩

end Stencil.Lexeme
