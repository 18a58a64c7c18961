import Stencil.Proofs.Lexicon

/-!
# Lexemes segment an expression

What it means that lexemes segment a stretch of a text: each stands at its own place as the longest lexeme of its kind there, they
do not overlap, and all characters outside of them are blank. The lexemes of an expression are its only segmentation, and where
there is none, the place of the error is the first one at which neither a lexeme nor a blank stands (`lex_segmentation`).
-/

namespace Stencil.Lexeme

/-- The place behind a lexeme. -/
def stop (l : Lexeme) : Nat := l.position + l.text.length

/-- Lexemes segment what a text holds from one place up to another. -/
structure Segmentation (t : Text) (start stop : Nat) (ts : List Lexeme) : Prop where
  /-- The second place is not before the first one. -/
  start_le : start ≤ stop
  /-- The second place is in the text or at its end. -/
  le_length : stop ≤ t.length
  /-- Each lexeme stands in the text where its position says, and is the longest of its kind there. -/
  longest : ∀ l ∈ ts, Longest l.kind l.text (t.drop l.position)
  /-- Each lexeme stands between the two places. -/
  within : ∀ l ∈ ts, start ≤ l.position ∧ l.stop ≤ stop
  /-- No lexeme starts before the end of an earlier one. -/
  apart : ts.Pairwise fun l l' => l.stop ≤ l'.position
  /-- What does not belong to a lexeme is blank. -/
  blank : ∀ i c, start ≤ i → i < stop → t[i]? = some c → (∀ l ∈ ts, ¬(l.position ≤ i ∧ i < l.stop)) → Text.isBlank c = true

/-- At a place stands a character that is no blank, and no lexeme starts there. -/
structure Stuck (t : Text) (p : Nat) (c : Char) : Prop where
  /-- The character stands there. -/
  getElem?_eq : t[p]? = some c
  /-- It is no blank. -/
  not_blank : Text.isBlank c = false
  /-- No lexeme starts there. -/
  not_spelled : ∀ kind text, Spelled kind text → ¬text <+: t.drop p

variable {t rest : Text} {p q : Nat} {c : Char} {l : Lexeme} {ts : List Lexeme}

theorem Longest.position_lt_stop (h : Longest l.kind l.text (t.drop l.position)) : l.position < l.stop := by
  obtain ⟨d, tail, htext, -⟩ := h.spelled.exists_cons
  rw [stop, htext, List.length_cons]
  omega

/-- A lexeme does not start with a blank. -/
theorem Longest.not_blank (h : Longest l.kind l.text (t.drop l.position)) (hc : t[l.position]? = some c) :
    Text.isBlank c = false := by
  obtain ⟨d, tail, htext, hd⟩ := h.spelled.exists_cons
  have hstarts := h.starts
  rw [htext] at hstarts
  obtain ⟨after, hafter⟩ := hstarts
  have hhead := congrArg List.head? hafter
  rw [List.head?_drop, hc] at hhead
  cases hhead
  exact hd

/-! ## One step of a segmentation -/

/-- Between a place and itself there is nothing. -/
theorem segmentation_self_iff : Segmentation t p p ts ↔ ts = [] ∧ p ≤ t.length := by
  constructor
  · intro h
    refine ⟨List.eq_nil_iff_forall_not_mem.2 fun l hl => ?_, h.le_length⟩
    have hwithin := h.within l hl
    have hlt := (h.longest l hl).position_lt_stop
    omega
  · rintro ⟨rfl, hp⟩
    exact ⟨Nat.le_refl p, hp, nofun, nofun, .nil, fun i _ hle hlt => absurd hlt (Nat.not_lt.2 hle)⟩

/-- A blank belongs to no lexeme. -/
theorem segmentation_blank_iff (hc : t[p]? = some c) (hblank : Text.isBlank c = true) (hlt : p < q) :
    Segmentation t p q ts ↔ Segmentation t (p + 1) q ts := by
  constructor
  · intro h
    refine ⟨hlt, h.le_length, h.longest, fun l hl => ⟨?_, (h.within l hl).2⟩, h.apart, fun i d hle => ?_⟩
    · refine Nat.lt_of_le_of_ne (h.within l hl).1 ?_
      rintro rfl
      rw [(h.longest l hl).not_blank hc] at hblank
      cases hblank
    · exact h.blank i d (Nat.le_of_succ_le hle)
  · intro h
    refine ⟨Nat.le_of_lt hlt, h.le_length, h.longest, fun l hl => ?_, h.apart, fun i d hle hi hd hno => ?_⟩
    · exact ⟨Nat.le_of_succ_le (h.within l hl).1, (h.within l hl).2⟩
    · rcases Nat.eq_or_lt_of_le hle with rfl | hle
      · rw [hc] at hd
        cases hd
        exact hblank
      · exact h.blank i d hle hi hd hno

/-- Where a character is no blank, the first lexeme starts, and the others segment what comes behind it. -/
theorem segmentation_lexeme_iff (hc : t[p]? = some c) (hblank : Text.isBlank c = false) (hlt : p < q) :
    Segmentation t p q ts ↔ ∃ l after, ts = l :: after ∧ l.position = p ∧ Longest l.kind l.text (t.drop p) ∧
      Segmentation t l.stop q after := by
  constructor
  · intro h
    obtain ⟨l, hl, hle, hstop⟩ : ∃ l ∈ ts, l.position ≤ p ∧ p < l.stop := by
      by_contra! hno
      have hp := h.blank p c (Nat.le_refl p) hlt hc fun l hl hcovers => Nat.not_lt.2 (hno l hl hcovers.1) hcovers.2
      rw [hblank] at hp
      cases hp
    obtain rfl : l.position = p := Nat.le_antisymm hle (h.within l hl).1
    cases ts with
    | nil => cases hl
    | cons first after =>
      obtain ⟨hfirst, hafter⟩ := List.pairwise_cons.1 h.apart
      obtain rfl : l = first := by
        -- Any other lexeme starts behind the first one.
        refine (List.mem_cons.1 hl).resolve_right fun hl' => ?_
        have hbehind := hfirst l hl'
        have hstarts := h.longest first List.mem_cons_self
        have hlt' := hstarts.position_lt_stop
        have hwithin := h.within first List.mem_cons_self
        omega
      refine ⟨l, after, rfl, rfl, h.longest l List.mem_cons_self, (h.within l List.mem_cons_self).2, h.le_length,
        fun l' hl' => h.longest l' (List.mem_cons_of_mem _ hl'), fun l' hl' => ?_, hafter, fun i d hi hiq hd hno => ?_⟩
      · exact ⟨hfirst l' hl', (h.within l' (List.mem_cons_of_mem _ hl')).2⟩
      · refine h.blank i d (Nat.le_trans (Nat.le_of_lt hstop) hi) hiq hd (List.forall_mem_cons.2 ⟨?_, hno⟩)
        exact fun hcovers => Nat.not_lt.2 hi hcovers.2
  · rintro ⟨l, after, rfl, rfl, hl, h⟩
    have hlt' := hl.position_lt_stop
    have hbehind : ∀ l' ∈ after, l.stop ≤ l'.position := fun l' hl' => (h.within l' hl').1
    refine ⟨Nat.le_of_lt hlt, h.le_length, List.forall_mem_cons.2 ⟨hl, h.longest⟩, List.forall_mem_cons.2 ⟨?_, fun l' hl' => ?_⟩,
      List.pairwise_cons.2 ⟨hbehind, h.apart⟩, fun i d hi hiq hd hno => ?_⟩
    · exact ⟨Nat.le_refl _, h.start_le⟩
    · exact ⟨Nat.le_trans (Nat.le_of_lt hlt') (hbehind l' hl'), (h.within l' hl').2⟩
    · obtain ⟨hno, hno'⟩ := List.forall_mem_cons.1 hno
      exact h.blank i d (by omega) hiq hd hno'

/-! ## Reading a text is segmenting it -/

/-- One step of reading lexemes that fails: behind a blank, where nothing starts, or behind a lexeme. -/
theorem scan_cons_eq_error_iff {e : ParseError} :
    scan p (c :: rest) = .error e ↔
      (Text.isBlank c = true ∧ scan (p + 1) rest = .error e) ∨
      (Text.isBlank c = false ∧ (start? c rest = none ∧ e = .unexpectedCharacter c p ∨
        ∃ kind n, start? c rest = some (kind, n) ∧ scan (p + 1 + n) (rest.drop n) = .error e)) := by
  rw [scan]
  cases Text.isBlank c with
  | true => simp only [if_true, true_and, Bool.true_eq_false, false_and, or_false]
  | false =>
    simp only [Bool.false_eq_true, if_false, false_and, true_and, false_or]
    rcases start? c rest with _ | ⟨kind, n⟩
    · simp [eq_comm]
    · simp only [reduceCtorEq, false_and, false_or, Option.some.injEq, Prod.mk.injEq]
      rw [bind_pure_error_iff]
      constructor
      · exact fun h => ⟨kind, n, ⟨rfl, rfl⟩, h⟩
      · rintro ⟨_, _, ⟨rfl, rfl⟩, h⟩
        exact h

/-- What is left of a text at a place where a character stands. -/
theorem drop_of_drop_eq_cons (h : t.drop p = c :: rest) :
    t[p]? = some c ∧ p < t.length ∧ t.length = p + 1 + rest.length ∧ ∀ n, rest.drop n = t.drop (p + 1 + n) := by
  have hlength := congrArg List.length h
  rw [List.length_drop, List.length_cons] at hlength
  refine ⟨by rw [← List.head?_drop, h]; rfl, by omega, by omega, fun n => ?_⟩
  rw [Nat.add_assoc, ← List.drop_drop, h, Nat.add_comm, List.drop_succ_cons]

/-- The place behind a lexeme that starts with a character. -/
theorem stop_eq (hposition : l.position = p) {n : Nat} (hn : n ≤ rest.length) (htext : l.text = c :: rest.take n) :
    l.stop = p + 1 + n := by
  rw [stop, hposition, htext, List.length_cons, List.length_take_of_le hn, Nat.add_assoc, Nat.add_comm n]

/-- Where a character is no blank, the first lexeme of a segmentation is what starts there. -/
theorem segmentation_start_iff (hdrop : t.drop p = c :: rest) (hblank : Text.isBlank c = false) (hlt : p < q) :
    Segmentation t p q ts ↔ ∃ kind n after, start? c rest = some (kind, n) ∧ Segmentation t (p + 1 + n) q after ∧
      ts = ⟨kind, c :: rest.take n, p⟩ :: after := by
  obtain ⟨hc, -⟩ := drop_of_drop_eq_cons hdrop
  rw [segmentation_lexeme_iff hc hblank hlt, hdrop]
  constructor
  · rintro ⟨⟨kind, text, position⟩, after, rfl, rfl, hlongest, hafter⟩
    obtain ⟨n, hn, hstart, rfl⟩ := longest_iff_start?.1 hlongest
    rw [stop_eq rfl hn rfl] at hafter
    exact ⟨kind, n, after, hstart, hafter, rfl⟩
  · rintro ⟨kind, n, after, hstart, hafter, rfl⟩
    obtain ⟨hn, hlongest⟩ := start?_eq_some_iff.1 hstart
    refine ⟨_, after, rfl, rfl, hlongest, ?_⟩
    rwa [stop_eq rfl hn rfl]

/-- What is read from a place on are the lexemes that segment the rest of the text. By induction on how much of it is left. -/
theorem scan_eq_ok_iff (hp : p ≤ t.length) : scan p (t.drop p) = .ok ts ↔ Segmentation t p t.length ts := by
  induction hn : t.length - p using Nat.strongRecOn generalizing p ts with
  | _ n ih =>
  cases hdrop : t.drop p with
  | nil =>
    obtain rfl : p = t.length := Nat.le_antisymm hp (List.drop_eq_nil_iff.1 hdrop)
    rw [scan, segmentation_self_iff, Except.ok.injEq, eq_comm]
    exact ⟨fun h => ⟨h, hp⟩, And.left⟩
  | cons c rest =>
    obtain ⟨hc, hlt, hlength, hrest⟩ := drop_of_drop_eq_cons hdrop
    rw [scan_cons_eq_ok_iff]
    cases hblank : Text.isBlank c with
    | true =>
      rw [segmentation_blank_iff hc hblank hlt, ← ih _ (by omega) hlt rfl, ← hrest 0, List.drop_zero]
      simp
    | false =>
      rw [segmentation_start_iff hdrop hblank hlt]
      simp only [Bool.false_eq_true, false_and, true_and, false_or]
      refine exists_congr fun kind => exists_congr fun k => exists_congr fun after => and_congr_right fun hstart => ?_
      have hk := (start?_eq_some_iff.1 hstart).1
      rw [hrest, ih _ (by omega) (by omega) rfl]

/-- Reading from a place on fails where it comes to be stuck, behind lexemes that segment the text up to there. By induction on how
much of the text is left. -/
theorem scan_eq_error_iff (hp : p ≤ t.length) {e : ParseError} :
    scan p (t.drop p) = .error e ↔
      ∃ q c ts, Segmentation t p q ts ∧ Stuck t q c ∧ e = .unexpectedCharacter c q := by
  induction hn : t.length - p using Nat.strongRecOn generalizing p with
  | _ n ih =>
  cases hdrop : t.drop p with
  | nil =>
    rw [scan]
    refine iff_of_false (by simp) ?_
    rintro ⟨q, c, ts, h, hstuck, -⟩
    have hend : t.length ≤ q := Nat.le_trans (List.drop_eq_nil_iff.1 hdrop) h.start_le
    have hnone := hstuck.getElem?_eq
    rw [List.getElem?_eq_none hend] at hnone
    cases hnone
  | cons c rest =>
    obtain ⟨hc, hlt, hlength, hrest⟩ := drop_of_drop_eq_cons hdrop
    have hbehind : ∀ {k}, k ≤ rest.length → (scan (p + 1 + k) (rest.drop k) = .error e ↔
        ∃ q c ts, Segmentation t (p + 1 + k) q ts ∧ Stuck t q c ∧ e = .unexpectedCharacter c q) := by
      intro k hk
      rw [hrest]
      exact ih _ (by omega) (by omega) rfl
    rw [scan_cons_eq_error_iff]
    constructor
    · rintro (⟨hblank, hscan⟩ | ⟨hblank, ⟨hstart, rfl⟩ | ⟨kind, k, hstart, hscan⟩⟩)
      · obtain ⟨q, d, ts, h, hstuck, he⟩ := (hbehind (Nat.zero_le _)).1 hscan
        exact ⟨q, d, ts, (segmentation_blank_iff hc hblank h.start_le).2 h, hstuck, he⟩
      · exact ⟨p, c, [], segmentation_self_iff.2 ⟨rfl, hp⟩, ⟨hc, hblank, hdrop ▸ start?_eq_none_iff.1 hstart⟩, rfl⟩
      · obtain ⟨q, d, ts, h, hstuck, he⟩ := (hbehind (start?_eq_some_iff.1 hstart).1).1 hscan
        have hq : p < q := Nat.lt_of_lt_of_le (by omega) h.start_le
        exact ⟨q, d, _, (segmentation_start_iff hdrop hblank hq).2 ⟨kind, k, ts, hstart, h, rfl⟩, hstuck, he⟩
    · rintro ⟨q, d, ts, h, hstuck, he⟩
      rcases Nat.eq_or_lt_of_le h.start_le with rfl | hq
      · obtain rfl : c = d := Option.some.inj (hc.symm.trans hstuck.getElem?_eq)
        exact .inr ⟨hstuck.not_blank, .inl ⟨start?_eq_none_iff.2 (hdrop ▸ hstuck.not_spelled), he⟩⟩
      · cases hblank : Text.isBlank c with
        | true =>
          exact .inl ⟨rfl, (hbehind (Nat.zero_le _)).2 ⟨q, d, ts, (segmentation_blank_iff hc hblank hq).1 h, hstuck, he⟩⟩
        | false =>
          obtain ⟨kind, k, after, hstart, hafter, -⟩ := (segmentation_start_iff hdrop hblank hq).1 h
          have hk := (start?_eq_some_iff.1 hstart).1
          exact .inr ⟨rfl, .inr ⟨kind, k, hstart, (hbehind hk).2 ⟨q, d, after, hafter, hstuck, he⟩⟩⟩

/-! ## Whole expressions -/

/-- The positions of the lexemes of a text increase up to its end. -/
theorem Segmentation.increases (h : Segmentation t 0 t.length ts) :
    (ts ++ [(⟨.finish, [], t.length⟩ : Lexeme)]).Pairwise fun l l' => l.position < l'.position := by
  have hstop : ∀ l ∈ ts, l.position < l.stop := fun l hl => (h.longest l hl).position_lt_stop
  refine List.pairwise_append.2 ⟨h.apart.imp_of_mem fun hl _ hle => Nat.lt_of_lt_of_le (hstop _ hl) hle,
    List.pairwise_singleton _ _, fun l hl last hlast => ?_⟩
  rw [List.mem_singleton.1 hlast]
  exact Nat.lt_of_lt_of_le (hstop l hl) (h.within l hl).2

/-- The lexemes of an expression are those that segment it, with its end as the last: their positions increase, each is the longest
of its kind where it stands, and all else is blank. If there are none, reading has come, behind lexemes that segment the expression
up to there, to a character that is no blank and starts no lexeme, and the error tells that one and its position. -/
theorem lex_segmentation (t : Text) :
    (∀ lexemes, lex t = .ok lexemes ↔ ∃ ts, Segmentation t 0 t.length ts ∧ lexemes = ts ++ [⟨.finish, [], t.length⟩] ∧
      lexemes.Pairwise fun l l' => l.position < l'.position) ∧
    ∀ e, lex t = .error e ↔ ∃ p c ts, Segmentation t 0 p ts ∧ Stuck t p c ∧ e = .unexpectedCharacter c p := by
  have hok : ∀ ts, scan 0 t = .ok ts ↔ Segmentation t 0 t.length ts := fun ts => scan_eq_ok_iff (Nat.zero_le _)
  refine ⟨fun lexemes => ?_, fun e => ?_⟩
  · rw [lex, bind_ok_iff]
    constructor
    · rintro ⟨ts, hscan, hlexemes⟩
      cases hlexemes
      exact ⟨ts, (hok ts).1 hscan, rfl, ((hok ts).1 hscan).increases⟩
    · rintro ⟨ts, h, rfl, -⟩
      exact ⟨ts, (hok ts).2 h, rfl⟩
  · rw [lex, bind_pure_error_iff]
    exact scan_eq_error_iff (Nat.zero_le _)

/-- A point behind a number with a point, and a single `&` behind a reference. -/
theorem lex_segmentation_point :
    Segmentation "1.5 .x" 0 6 [⟨.number, "1.5", 0⟩, ⟨.symbol, ".", 4⟩, ⟨.name, "x", 5⟩] ∧
      ∃ ts, Segmentation "$x & 1" 0 3 ts ∧ Stuck "$x & 1" 3 '&' := by
  have hread : lex ['1', '.', '5', ' ', '.', 'x'] =
      .ok ([⟨.number, "1.5", 0⟩, ⟨.symbol, ".", 4⟩, ⟨.name, "x", 5⟩] ++ [⟨.finish, [], 6⟩]) := by
    rw [lex, scan_cons (k := .number) (n := 2) rfl rfl, List.drop_succ_cons, List.drop_succ_cons, List.drop_zero,
      scan_blank rfl, scan_cons (k := .symbol) (n := 0) rfl rfl, List.drop_zero, scan_single (k := .name) rfl rfl]
    rfl
  have hstuck : lex ['$', 'x', ' ', '&', ' ', '1'] = .error (.unexpectedCharacter '&' 3) := by
    rw [lex, scan_cons (k := .var) (n := 1) rfl rfl, List.drop_succ_cons, List.drop_zero, scan_blank rfl, scan]
    rfl
  refine ⟨?_, ?_⟩
  · obtain ⟨ts, h, heq, -⟩ := ((lex_segmentation "1.5 .x").1 _).1 hread
    obtain ⟨rfl, -⟩ := List.append_inj' heq.symm rfl
    exact h
  · obtain ⟨p, c, ts, h, hc, heq⟩ := ((lex_segmentation "$x & 1").2 _).1 hstuck
    cases heq
    exact ⟨ts, h, hc⟩

end Stencil.Lexeme
