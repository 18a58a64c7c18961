import Mathlib.Data.Prod.Lex
import Mathlib.Order.Monotone.Basic
import Stencil.Proofs.Matching
import Stencil.Proofs.Partition.Unterminated
import Stencil.Render.Basic

/-!
# Positions and the offsets they stand for

A position is at an offset if its line is counted by the line feeds before the offset, and its column from the start of that line,
with no line feed in between (`Position.IsAt`). From one offset to the next the position moves on by a column or to the start of the
next line (`Position.ofOffset_succ`), so each offset has one position, later offsets have later ones, and an offset can be told from
its position and from the words for it (`Position.identify_offsets`). A failure of rendering that is told with a position is told
with that of the directive that failed (`render_site`).
-/

namespace Stencil

/-! ## Starts of lines -/

/-- A line of a text starts at an offset: the text itself starts there or a line feed stands right before it, and the line feeds
before it end the lines before this one. -/
structure Text.StartsLine (t : Text) (line start : Nat) : Prop where
  /-- The text starts there, or a line feed stands right before. -/
  fresh : start = 0 ∨ ∃ i, start = i + 1 ∧ t[i]? = some '\n'
  /-- The line feeds before it are counted from one on. -/
  line_eq : line = (t.take start).count '\n' + 1

namespace Text

variable {t : Text} {line start start' : Nat}

/-- One more character is one more line feed if it is one. -/
theorem count_take_succ (t : Text) (i : Nat) :
    (t.take (i + 1)).count '\n' = (t.take i).count '\n' + if t[i]? = some '\n' then 1 else 0 := by
  rw [List.take_add_one, List.count_append]
  cases t[i]? with
  | none => rfl
  | some c => simp [List.count_singleton]

/-- A line does not start behind another start of it: the line feed before the later one would end it. -/
theorem StartsLine.le (h : t.StartsLine line start) (h' : t.StartsLine line start') : start' ≤ start := by
  by_contra hlt
  rw [Nat.not_le] at hlt
  obtain rfl | ⟨i, rfl, hi⟩ := h'.fresh
  · exact absurd hlt (Nat.not_lt_zero _)
  · have htake : t.take start <+: t.take i := List.take_prefix_take_left (Nat.le_of_lt_succ hlt)
    have hcount := htake.sublist.count_le '\n'
    have hline := h.line_eq.symm.trans h'.line_eq
    rw [count_take_succ, if_pos hi] at hline
    omega

theorem StartsLine.unique (h : t.StartsLine line start) (h' : t.StartsLine line start') : start = start' :=
  Nat.le_antisymm (h'.le h) (h.le h')

/-! ## Numerals in words -/

/-- Two numbers can be told from the text that spells them one behind the other, where what stands between does not start with a
digit. -/
theorem numerals_inj {opening between : Text} {m m' n n' : Nat} (hbetween : ∃ c ∈ between.head?, isDigit c = false)
    (h : opening ++ numeral m ++ between ++ numeral n = opening ++ numeral m' ++ between ++ numeral n') : m = m' ∧ n = n' := by
  have hinj {k l : Nat} (h : numeral k = numeral l) : k = l := by
    rw [← numeralValue_numeral k, h, numeralValue_numeral]
  obtain ⟨c, hc, hdigit⟩ := hbetween
  have hfirst (k : Nat) (rest : Text) : (numeral k ++ (between ++ rest)).takeWhile isDigit = numeral k :=
    takeWhile_append (Numeral.written_numeral k).whole_digits fun d hd => by
      rw [List.head?_append, Option.mem_def.1 hc] at hd
      cases hd
      exact hdigit
  simp only [List.append_assoc, List.append_cancel_left_eq] at h
  have hm : numeral m = numeral m' := by rw [← hfirst m, h, hfirst]
  rw [hm] at h
  exact ⟨hinj hm, hinj (List.append_cancel_left (List.append_cancel_left h))⟩

end Text

namespace Position

/-! ## The position at an offset -/

variable {t : Text} {offset offset' : Nat} {p p' : Position}

/-- A position is at an offset of a text: its line is counted by the line feeds before the offset, and its column by the characters
from the start of that line, among which is no line feed. -/
structure IsAt (t : Text) (offset : Nat) (p : Position) : Prop where
  /-- As many lines end before the offset as are numbered below the position's. -/
  line_eq : p.line = (t.take offset).count '\n' + 1
  /-- The offset is the start of the line and the columns before the position's. -/
  column_eq : ∃ start, t.StartsLine p.line start ∧ 1 ≤ p.column ∧ offset = start + (p.column - 1) ∧
    ∀ i, start ≤ i → i < offset → t[i]? ≠ some '\n'

/-- An offset has one position only. -/
theorem IsAt.unique (h : IsAt t offset p) (h' : IsAt t offset p') : p = p' := by
  obtain ⟨line, column⟩ := p
  obtain ⟨line', column'⟩ := p'
  obtain rfl : line = line' := h.line_eq.trans h'.line_eq.symm
  obtain ⟨start, hstart, hpos, hoffset, -⟩ := h.column_eq
  obtain ⟨start', hstart', hpos', hoffset', -⟩ := h'.column_eq
  obtain rfl := hstart.unique hstart'
  simp only at hpos hpos' hoffset hoffset'
  obtain rfl : column = column' := by omega
  rfl

theorem IsAt.offset_unique (h : IsAt t offset p) (h' : IsAt t offset' p) : offset = offset' := by
  obtain ⟨start, hstart, -, hoffset, -⟩ := h.column_eq
  obtain ⟨start', hstart', -, hoffset', -⟩ := h'.column_eq
  rw [hoffset, hoffset', hstart.unique hstart']

theorem IsAt.nextLine (h : IsAt t offset p) (hc : t[offset]? = some '\n') : IsAt t (offset + 1) ⟨p.line + 1, 1⟩ := by
  have hline : p.line + 1 = (t.take (offset + 1)).count '\n' + 1 := by
    rw [Text.count_take_succ, if_pos hc, h.line_eq]
  exact ⟨hline, offset + 1, ⟨.inr ⟨offset, rfl, hc⟩, hline⟩, Nat.le_refl 1, rfl, fun i hle hlt => absurd hlt (Nat.not_lt.2 hle)⟩

/-- Behind any other character, and behind the end, the line has one more column. -/
theorem IsAt.nextColumn (h : IsAt t offset p) (hc : t[offset]? ≠ some '\n') : IsAt t (offset + 1) ⟨p.line, p.column + 1⟩ := by
  obtain ⟨start, hstart, hpos, hoffset, hclear⟩ := h.column_eq
  refine ⟨?_, start, hstart, Nat.le_add_left 1 _, ?_, fun i hle hlt => ?_⟩
  · rw [Text.count_take_succ, if_neg hc]
    exact h.line_eq
  · simp only
    omega
  · rcases Nat.lt_succ_iff_lt_or_eq.1 hlt with hlt | rfl
    · exact hclear i hle hlt
    · exact hc

theorem ofOffset_zero (t : Text) : ofOffset t 0 = ⟨1, 1⟩ := by
  simp only [ofOffset, List.take_zero, List.foldl_nil, Nat.zero_sub]

/-- From one offset to the next the position moves on by a column, or behind a line feed to the start of the next line. -/
theorem ofOffset_succ (t : Text) (offset : Nat) :
    ofOffset t (offset + 1) =
      if t[offset]? = some '\n' then ⟨(ofOffset t offset).line + 1, 1⟩
      else ⟨(ofOffset t offset).line, (ofOffset t offset).column + 1⟩ := by
  unfold ofOffset
  rw [List.take_add_one, List.foldl_append]
  cases hc : t[offset]? with
  | none =>
    have hend := List.getElem?_eq_none_iff.1 hc
    rw [if_neg nofun, Nat.succ_sub hend]
    rfl
  | some c =>
    obtain ⟨hlt, -⟩ := List.getElem?_eq_some_iff.1 hc
    rw [Nat.sub_eq_zero_of_le hlt, Nat.sub_eq_zero_of_le (Nat.le_of_lt hlt), Option.toList_some, List.foldl_cons, List.foldl_nil,
      next]
    by_cases hn : c = '\n'
    · rw [if_pos hn, if_pos (congrArg some hn)]
    · rw [if_neg hn, if_neg fun h => hn (Option.some.inj h)]
      rfl

/-- The position of an offset is at it. By induction on the offset. -/
theorem isAt_ofOffset (t : Text) (offset : Nat) : IsAt t offset (ofOffset t offset) := by
  induction offset with
  | zero =>
    rw [ofOffset_zero]
    exact ⟨rfl, 0, ⟨.inl rfl, rfl⟩, Nat.le_refl 1, rfl, fun i _ hi => absurd hi (Nat.not_lt_zero i)⟩
  | succ offset ih =>
    rw [ofOffset_succ]
    split
    · rename_i hc
      exact ih.nextLine hc
    · rename_i hc
      exact ih.nextColumn hc

theorem isAt_iff : IsAt t offset p ↔ p = ofOffset t offset :=
  ⟨fun h => h.unique (isAt_ofOffset t offset), fun h => h ▸ isAt_ofOffset t offset⟩

theorem ofOffset_injective (t : Text) : Function.Injective (ofOffset t) := by
  intro offset offset' h
  exact (isAt_ofOffset t offset).offset_unique (isAt_iff.2 h)

theorem describe_injective : Function.Injective describe := by
  rintro ⟨line, column⟩ ⟨line', column'⟩ h
  obtain ⟨rfl, rfl⟩ := Text.numerals_inj ⟨',', rfl, by decide⟩ h
  rfl

/-- Positions and the words for them tell the offsets of a text. The position of an offset is the one whose line is one more than
the line feeds before the offset, and whose column is one more than the characters from the start of that line, none of them a line
feed. Line by line and column by column, positions increase with the offset, and no two offsets share a position or the words for
it. An offset past the end counts as if the last line went on. -/
theorem identify_offsets (t : Text) :
    (∀ offset p, IsAt t offset p ↔ p = ofOffset t offset) ∧
      StrictMono (fun offset => toLex ((ofOffset t offset).line, (ofOffset t offset).column)) ∧
      Function.Injective (ofOffset t) ∧ Function.Injective fun offset => (ofOffset t offset).describe := by
  refine ⟨fun _ _ => isAt_iff, strictMono_nat_of_lt_succ fun offset => ?_, ofOffset_injective t,
    describe_injective.comp (ofOffset_injective t)⟩
  rw [Prod.Lex.toLex_lt_toLex, ofOffset_succ]
  split
  · exact .inl (Nat.lt_succ_self _)
  · exact .inr ⟨rfl, Nat.lt_succ_self _⟩

/-- Empty lines at the start, and a line feed at the end. -/
example : (List.range 6).map (ofOffset "\n\nab\n") = [⟨1, 1⟩, ⟨2, 1⟩, ⟨3, 1⟩, ⟨3, 2⟩, ⟨3, 3⟩, ⟨4, 1⟩] := by decide

end Position

/-! ## The positions of failures -/

/-- Where a failure is and what is written there, if it is told with a position. -/
def Failure.site? : Failure → Option (Position × Text)
  | unterminated _ place => some (place, "(".toList)
  | noAssignment _ place => some (place, "#set".toList)
  | unmatched directive place => some (place, directive.symbol)
  | unclosed place => some (place, "#if".toList)
  | evaluation .. | tooManyDigits _ | object _ => none

namespace Token

variable {template : Text} {token : Token}

/-- What a directive starts with. A span of text may start with anything. -/
def Form.sign : Form → Text
  | .text _ => []
  | .set _ => "#set".toList
  | .cond _ => "#if".toList
  | .elseCond _ => "#elseif".toList
  | .otherwise => "#else".toList
  | .finish => "#end".toList

/-- What writes down a directive starts with its sign. -/
theorem Form.Source.starts_sign {form : Form} {piece : Text} (h : form.Source piece) : form.sign <+: piece := by
  have hp : ∀ {sign content}, Parenthesized sign content piece → sign <+: piece := by
    rintro sign content ⟨⟨gap, -, rfl⟩, -⟩
    exact List.prefix_append _ _
  cases form with
  | text t => exact List.nil_prefix
  | set body => exact hp h
  | cond condition => exact hp h
  | elseCond condition => exact hp h
  | otherwise => exact h ▸ List.prefix_rfl
  | finish => exact h ▸ List.prefix_rfl

theorem Fits.starts_sign {stop : Nat} (h : token.Fits template stop) : token.form.sign <+: template.drop token.offset := by
  refine h.1.starts_sign.trans ?_
  rw [List.extract_eq_take_drop]
  exact List.take_prefix _ _

theorem sign_of_continuation {directive : Continuation} (h : token.continuation? = some directive) :
    token.form.sign = directive.symbol := by
  obtain ⟨o, form⟩ := token
  cases form <;> cases h <;> rfl

/-- The chains that are left open start with tokens that open them. -/
theorem exists_of_mem_unclosed {tokens : List Token} {offset : Nat} (h : offset ∈ unclosed tokens) :
    ∃ token ∈ tokens, token.form.sign = "#if".toList ∧ token.offset = offset := by
  induction tokens with
  | nil => cases h
  | cons token tokens ih =>
    have hrest : offset ∈ unclosed tokens → ∃ t ∈ token :: tokens, t.form.sign = "#if".toList ∧ t.offset = offset := by
      intro hm
      obtain ⟨t, ht, hsign⟩ := ih hm
      exact ⟨t, List.mem_cons_of_mem _ ht, hsign⟩
    rw [unclosed] at h
    split at h
    · rename_i hopens
      rcases List.mem_cons.1 h with rfl | hm
      · obtain ⟨o, form⟩ := token
        cases form with
        | cond condition => exact ⟨_, List.mem_cons_self, rfl, rfl⟩
        | _ => cases hopens.1
      · exact hrest hm
    · exact hrest h

/-- The offset of a directive that is never closed is that of an opening parenthesis. -/
theorem parenthesis_of_tokenize_error {e : Unterminated} (h : tokenize template = .error e) :
    "(".toList <+: template.drop e.offset := by
  obtain ⟨tokens, stop, c, rest, distance, hs, hstart, rfl⟩ := scans_of_scan_error h
  obtain ⟨rfl, opener, gap, after, -, rfl, -, rfl⟩ := neverCloses_of_start hstart
  obtain ⟨a, rfl, rfl, -⟩ := hs.split
  refine ⟨after, ?_⟩
  rw [Nat.zero_add, ← List.drop_drop, List.drop_left, List.drop_succ_cons, drop_append_append]
  rfl

end Token

section

variable [World] {place : Position} {sign : Text} {e : Failure}

namespace Machine

variable {m : Machine}

/-- A token that fails with a position fails with that of its own offset. -/
theorem site_of_fails {token : Token} (h : m.Fails token e) (hs : e.site? = some (place, sign)) :
    place = .ofOffset m.template token.offset ∧ sign = token.form.sign := by
  cases h with
  | noAssignment =>
    cases hs
    exact ⟨rfl, rfl⟩
  | unmatched _ hc =>
    cases hs
    exact ⟨rfl, (Token.sign_of_continuation hc).symm⟩
  | writeLong | writeObject | assign | enter | tryBranch => cases hs

/-- A run that fails with a position fails with that of one of its tokens. -/
theorem site_of_run {tokens : List Token} (hm : m.frames = []) (h : (m.run tokens).2 = .error e)
    (hs : e.site? = some (place, sign)) :
    ∃ token ∈ tokens, place = .ofOffset m.template token.offset ∧ sign = token.form.sign := by
  cases hfeed : m.feed tokens with
  | mk m' failure =>
    cases failure with
    | some e' =>
      rw [run_of_failed hfeed] at h
      obtain rfl := Except.error.inj h
      obtain ⟨before, token, after, rfl, hbefore, hstep⟩ := feed_eq_error_iff.1 hfeed
      obtain ⟨hplace, hsign⟩ := site_of_fails (fails_of_step hstep) hs
      rw [template_feed hbefore] at hplace
      exact ⟨token, List.mem_append_right _ List.mem_cons_self, hplace, hsign⟩
    | none =>
      obtain ⟨-, hnested, hopen⟩ := run_handled hm hfeed
      have hn : ¬Token.Nested tokens := by
        rw [← hnested, h]
        rintro ⟨output, ⟨⟩⟩
      obtain ⟨outer, offset, hunclosed, hrun⟩ := hopen hn
      obtain rfl := Except.error.inj (hrun.symm.trans h)
      obtain ⟨token, hmem, hsign, rfl⟩ := Token.exists_of_mem_unclosed (hunclosed ▸ List.mem_concat_self)
      cases hs
      exact ⟨token, hmem, rfl, hsign.symm⟩

end Machine

/-- A failure of rendering that is told with a position leads back to its directive: the position is that of one offset of the
template only, and there stands what the failure is about. -/
theorem render_site {template : Text} {values : Entries Value} (h : (render template values).result = .error e)
    (hs : e.site? = some (place, sign)) :
    ∃ offset, (∀ o, Position.ofOffset template o = place ↔ o = offset) ∧ sign <+: template.drop offset := by
  suffices hsite : ∃ offset, place = .ofOffset template offset ∧ sign <+: template.drop offset by
    obtain ⟨offset, rfl, hsign⟩ := hsite
    exact ⟨offset, fun o => (Position.ofOffset_injective template).eq_iff, hsign⟩
  cases htokens : Token.tokenize template with
  | error unterminated =>
    rw [render_of_unterminated htokens] at h
    cases h
    cases hs
    exact ⟨unterminated.offset, rfl, Token.parenthesis_of_tokenize_error htokens⟩
  | ok tokens =>
    rw [render_of_tokenize htokens] at h
    obtain ⟨token, hmem, hplace, rfl⟩ := Machine.site_of_run rfl h hs
    obtain ⟨before, after, rfl⟩ := List.append_of_mem hmem
    exact ⟨token.offset, hplace, ((Token.tokenize_eq_ok_iff.1 htokens).fits before token after rfl).starts_sign⟩

end

end Stencil
