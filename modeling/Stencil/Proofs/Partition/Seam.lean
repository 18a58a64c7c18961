import Stencil.Proofs.Partition.Scan

/-!
# Seams of a template

The scanner reads ahead, but never past the next `#`: what starts at a `#` is decided by characters none of which is another one
(`startsDirective_iff`). So a template can be put together at a `#` from two that are scanned apart (`scan_append`), and it can be
cut wherever a token starts (`scan_cut`): no directive and no span of text is made, lost or merged across the seam.
-/

namespace Stencil

/-! ## Heads of directives -/

/-- What a directive starts with after its `#`: a keyword and, for the directives with parentheses, any spaces and tabs and an
opening parenthesis. -/
def IsHead (s : Text) : Prop :=
  s = "else" ∨ s = "end" ∨
    ∃ (opener : Opener) (gap : Text), (∀ c ∈ gap, c = ' ' ∨ c = '\t') ∧ s = opener.keyword ++ (gap ++ ['('])

/-- There is no `#` in what a directive starts with after its own. -/
theorem IsHead.hash_notMem {s : Text} (h : IsHead s) : '#' ∉ s := by
  rcases h with rfl | rfl | ⟨opener, gap, hg, rfl⟩
  · decide
  · decide
  · have hkeyword : '#' ∉ opener.keyword := by cases opener <;> decide
    simp only [List.mem_append, List.mem_singleton, not_or]
    refine ⟨hkeyword, fun hm => ?_, by decide⟩
    rcases hg _ hm with h | h <;> cases h

/-- A text is opened by a directive with parentheses exactly if it starts with the sign, any spaces and tabs and a parenthesis. -/
theorem exists_opens_iff {sign t : Text} : (∃ after, Opens sign t after) ↔
    ∃ gap : Text, (∀ c ∈ gap, c = ' ' ∨ c = '\t') ∧ sign ++ (gap ++ ['(']) <+: t := by
  constructor
  · rintro ⟨after, gap, hg, rfl⟩
    exact ⟨gap, hg, after, by simp⟩
  · rintro ⟨gap, hg, after, rfl⟩
    exact ⟨after, gap, hg, by simp⟩

/-- A directive starts a text exactly if the text starts with a `#` and the head of a directive. -/
theorem startsDirective_iff {c : Char} {t : Text} :
    StartsDirective (c :: t) ↔ c = '#' ∧ ∃ s, IsHead s ∧ s <+: t := by
  have hopens : ∀ opener : Opener, (∃ after, Opens ('#' :: opener.keyword) (c :: t) after) ↔
      c = '#' ∧ ∃ gap : Text, (∀ d ∈ gap, d = ' ' ∨ d = '\t') ∧ opener.keyword ++ (gap ++ ['(']) <+: t := by
    intro opener
    simp only [exists_opens_iff, List.cons_append, List.cons_prefix_cons, eq_comm (a := '#')]
    constructor
    · rintro ⟨gap, hg, rfl, hp⟩
      exact ⟨rfl, gap, hg, hp⟩
    · rintro ⟨rfl, gap, hg, hp⟩
      exact ⟨gap, hg, rfl, hp⟩
  have hbare : ∀ keyword : Text, '#' :: keyword <+: c :: t ↔ c = '#' ∧ keyword <+: t := by
    intro keyword
    rw [List.cons_prefix_cons, eq_comm]
  constructor
  · rintro (h | h | h | h | h)
    · obtain ⟨hc, gap, hg, hp⟩ := (hopens .assignment).1 h
      exact ⟨hc, _, .inr (.inr ⟨.assignment, gap, hg, rfl⟩), hp⟩
    · obtain ⟨hc, gap, hg, hp⟩ := (hopens .condition).1 h
      exact ⟨hc, _, .inr (.inr ⟨.condition, gap, hg, rfl⟩), hp⟩
    · obtain ⟨hc, gap, hg, hp⟩ := (hopens .alternative).1 h
      exact ⟨hc, _, .inr (.inr ⟨.alternative, gap, hg, rfl⟩), hp⟩
    · obtain ⟨hc, hp⟩ := (hbare "else").1 h
      exact ⟨hc, _, .inl rfl, hp⟩
    · obtain ⟨hc, hp⟩ := (hbare "end").1 h
      exact ⟨hc, _, .inr (.inl rfl), hp⟩
  · rintro ⟨hc, s, rfl | rfl | ⟨opener, gap, hg, rfl⟩, hp⟩
    · exact .inr (.inr (.inr (.inl ((hbare "else").2 ⟨hc, hp⟩))))
    · exact .inr (.inr (.inr (.inr ((hbare "end").2 ⟨hc, hp⟩))))
    · have h := (hopens opener).2 ⟨hc, gap, hg, hp⟩
      cases opener with
      | assignment => exact .inl h
      | condition => exact .inr (.inl h)
      | alternative => exact .inr (.inr (.inl h))

/-- What a text without a `#` starts does not reach past the next one. -/
theorem prefix_of_prefix_append {s t after : Text} (hs : '#' ∉ s) (hafter : ∀ c ∈ after.head?, c = '#')
    (h : s <+: t ++ after) : s <+: t := by
  obtain ⟨rest, h⟩ := h
  obtain ⟨more, rfl, -⟩ | ⟨more, rfl, rfl⟩ := List.append_eq_append_iff.1 h
  · exact List.prefix_append _ _
  · cases more with
    | nil => simp
    | cons c more =>
      obtain rfl : c = '#' := hafter c rfl
      exact absurd (List.mem_append_right _ List.mem_cons_self) hs

namespace Token

/-! ## What starts at a place, when what comes after it is exchanged -/

/-- A form stays the right one when what comes after it is exchanged, if no head of a directive comes up by that and a span of
text still goes up to a `#`. -/
theorem Form.Canonical.exchange {form : Form} {c : Char} {used next next' : Text}
    (h : form.Canonical (c :: (used ++ next)) next)
    (hheads : ∀ s, '#' ∉ s → s <+: used ++ next' → s <+: used ++ next)
    (hnext : (∀ d ∈ next.head?, d = '#') → ∀ d ∈ next'.head?, d = '#') :
    form.Canonical (c :: (used ++ next')) next' := by
  cases form with
  | text t =>
    refine h.imp (fun ⟨hno, hstop⟩ => ⟨hno, hnext hstop⟩) fun ⟨ht, hno⟩ => ⟨ht, fun hs => hno ?_⟩
    obtain ⟨hc, s, hhead, hp⟩ := startsDirective_iff.1 hs
    exact startsDirective_iff.2 ⟨hc, s, hhead, hheads s hhead.hash_notMem hp⟩
  | otherwise =>
    intro after ho
    obtain ⟨gap, hg, hp⟩ := exists_opens_iff.1 ⟨after, ho⟩
    obtain ⟨hc, hp⟩ := List.cons_prefix_cons.1 hp
    have hhead : IsHead ("elseif" ++ (gap ++ ['('])) := .inr (.inr ⟨.alternative, gap, hg, rfl⟩)
    have hold : '#' :: ("elseif" ++ (gap ++ ['('])) <+: c :: (used ++ next) :=
      List.cons_prefix_cons.2 ⟨hc, hheads _ hhead.hash_notMem hp⟩
    have hopens : ∃ after, Opens "#elseif" (c :: (used ++ next)) after := exists_opens_iff.2 ⟨gap, hg, hold⟩
    obtain ⟨after', ho'⟩ := hopens
    exact h after' ho'
  | set | cond | elseCond | finish => trivial

/-- What starts with a character and what belongs to it stay the same under such an exchange. -/
theorem start_exchange {form : Form} {c : Char} {used next next' : Text}
    (h : start c (used ++ next) = .ok (form, used.length))
    (hheads : ∀ s, '#' ∉ s → s <+: used ++ next' → s <+: used ++ next)
    (hnext : (∀ d ∈ next.head?, d = '#') → ∀ d ∈ next'.head?, d = '#') :
    start c (used ++ next') = .ok (form, used.length) := by
  obtain ⟨used', after, heq, hlen, hs, hc⟩ := source_of_start h
  obtain ⟨rfl, rfl⟩ := List.append_inj heq hlen
  exact start_of_source hs (hc.exchange hheads hnext)

/-- What starts with a character does not change when more is written after the template from a `#` on. -/
theorem start_append {form : Form} {c : Char} {used next after : Text} (h : start c (used ++ next) = .ok (form, used.length))
    (hafter : ∀ d ∈ after.head?, d = '#') : start c (used ++ (next ++ after)) = .ok (form, used.length) := by
  refine start_exchange h (fun s hs hp => ?_) fun hnext => ?_
  · rw [← List.append_assoc] at hp
    exact prefix_of_prefix_append hs hafter hp
  · cases next with
    | nil => exact hafter
    | cons d next => exact hnext

/-- What starts with a character does not change when the template is cut somewhere after it. -/
theorem start_of_append {form : Form} {c : Char} {used next after : Text}
    (h : start c (used ++ (next ++ after)) = .ok (form, used.length)) :
    start c (used ++ next) = .ok (form, used.length) := by
  refine start_exchange h (fun s _ hp => ?_) fun hnext => ?_
  · rw [← List.append_assoc]
    exact hp.trans (List.prefix_append _ _)
  · cases next with
    | nil => exact nofun
    | cons d next => exact hnext

/-! ## Scanning across a seam -/

theorem exists_used_of_start {form : Form} {c : Char} {rest : Text} {n : Nat} (h : start c rest = .ok (form, n)) :
    ∃ used next, rest = used ++ next ∧ n = used.length := by
  obtain ⟨used, next, heq, hlen, -⟩ := source_of_start h
  exact ⟨used, next, heq, hlen⟩

/-- One step of a scan that reads a token. -/
theorem scan_cons_of_start {o : Nat} {form : Form} {c : Char} {used next : Text}
    (h : start c (used ++ next) = .ok (form, used.length)) :
    scan o (c :: (used ++ next)) = (scan (o + 1 + used.length) next).map (⟨o, form⟩ :: ·) := by
  rw [scan]
  simp only [h, List.drop_left]
  cases scan (o + 1 + used.length) next <;> rfl

/-- A scan that comes to an end goes on with what is written after it from a `#` on. By induction on the tokens. -/
theorem scan_append {o : Nat} {a b : Text} {tokens : List Token} (h : scan o a = .ok tokens)
    (hb : ∀ c ∈ b.head?, c = '#') : scan o (a ++ b) = (scan (o + a.length) b).map (tokens ++ ·) := by
  induction tokens generalizing o a with
  | nil =>
    cases a with
    | nil =>
      rw [List.nil_append, List.length_nil, Nat.add_zero]
      cases scan o b <;> rfl
    | cons c rest =>
      obtain ⟨form, n, after, -, -, heq⟩ := scan_cons_eq_ok_iff.1 h
      cases heq
  | cons token tokens ih =>
    cases a with
    | nil =>
      rw [scan] at h
      cases h
    | cons c rest =>
      obtain ⟨form, n, after, hstart, hscan, heq⟩ := scan_cons_eq_ok_iff.1 h
      obtain ⟨rfl, rfl⟩ := List.cons.inj heq
      obtain ⟨used, next, rfl, rfl⟩ := exists_used_of_start hstart
      rw [List.drop_left] at hscan
      have hlength : o + 1 + used.length + next.length = o + (c :: (used ++ next)).length := by
        rw [List.length_cons, List.length_append]
        omega
      rw [List.cons_append, List.append_assoc, scan_cons_of_start (start_append hstart hb), ih hscan, hlength]
      cases scan (o + (c :: (used ++ next)).length) b <;> rfl

/-- A scan that comes to an end can be cut before any of its tokens: the tokens before it are those of a first part of the text,
and those from it on are those of the rest. By induction on the tokens before it. -/
theorem scan_cut {o : Nat} {t : Text} {before after : List Token} (h : scan o t = .ok (before ++ after)) :
    ∃ a b, t = a ++ b ∧ scan o a = .ok before ∧ scan (o + a.length) b = .ok after := by
  induction before generalizing o t with
  | nil => exact ⟨[], t, rfl, by rw [scan], h⟩
  | cons token before ih =>
    cases t with
    | nil =>
      rw [scan] at h
      cases h
    | cons c rest =>
      obtain ⟨form, n, tokens, hstart, hscan, heq⟩ := scan_cons_eq_ok_iff.1 h
      obtain ⟨rfl, rfl⟩ := List.cons.inj heq
      obtain ⟨used, next, rfl, rfl⟩ := exists_used_of_start hstart
      rw [List.drop_left] at hscan
      obtain ⟨a, b, rfl, ha, hb⟩ := ih hscan
      refine ⟨c :: (used ++ a), b, by simp, ?_, ?_⟩
      · rw [scan_cons_of_start (start_of_append hstart), ha]
        rfl
      · have hlength : o + (c :: (used ++ a)).length = o + 1 + used.length + a.length := by
          rw [List.length_cons, List.length_append]
          omega
        rw [hlength]
        exact hb

/-! ## Offsets -/

/-- A token some characters later. -/
def shift (n : Nat) (token : Token) : Token := { token with offset := n + token.offset }

/-- A token some characters earlier. -/
def lower (n : Nat) (token : Token) : Token := { token with offset := token.offset - n }

theorem lower_shift (n : Nat) (token : Token) : (token.shift n).lower n = token := by
  unfold lower shift
  simp

/-- A result of a scan that starts some characters later. -/
def shiftResult (n : Nat) : Except Unterminated (List Token) → Except Unterminated (List Token)
  | .ok tokens => .ok (tokens.map (shift n))
  | .error e => .error ⟨n + e.offset⟩

/-- Where a scan starts changes nothing but the offsets. By induction on how much of the text is left. -/
theorem scan_shift (n o : Nat) (t : Text) : scan (n + o) t = shiftResult n (scan o t) := by
  induction hlen : t.length using Nat.strongRecOn generalizing o t with
  | _ m ih =>
  cases t with
  | nil =>
    rw [scan, scan]
    rfl
  | cons c rest =>
    rw [List.length_cons] at hlen
    rw [scan, scan]
    cases hstart : start c rest with
    | error distance =>
      simp only [shiftResult, Nat.add_assoc]
    | ok found =>
      obtain ⟨form, k⟩ := found
      have hrest := ih (rest.drop k).length (by rw [List.length_drop]; omega) (o + 1 + k) (rest.drop k) rfl
      have hoffset : n + o + 1 + k = n + (o + 1 + k) := by omega
      simp only [hoffset, hrest]
      cases scan (o + 1 + k) (rest.drop k) <;> rfl

/-- A place of a template where a token starts, or its end. -/
def IsBoundary (template : Text) (tokens : List Token) (k : Nat) : Prop :=
  k = template.length ∨ ∃ token ∈ tokens, token.offset = k

/-- A boundary cuts the template and its tokens into two parts that go together. -/
theorem cut_at_boundary {t : Text} {tokens : List Token} {k : Nat} (h : tokenize t = .ok tokens)
    (hk : IsBoundary t tokens k) :
    ∃ a b before after, t = a ++ b ∧ a.length = k ∧ tokens = before ++ after.map (shift k) ∧
      tokenize a = .ok before ∧ tokenize b = .ok after := by
  obtain ⟨before, after, rfl, hstart⟩ :
      ∃ before after : List Token, tokens = before ++ after ∧ nextOffset t after = k := by
    rcases hk with rfl | ⟨token, hm, rfl⟩
    · exact ⟨tokens, [], (List.append_nil _).symm, rfl⟩
    · obtain ⟨before, after, rfl⟩ := List.append_of_mem hm
      exact ⟨before, token :: after, rfl, rfl⟩
  obtain ⟨a, b, rfl, ha, hb⟩ := scan_cut h
  rw [Nat.zero_add] at hb
  have hlength : a.length = k := by
    rw [← hstart]
    -- The second part starts with its first token, or is empty.
    cases b with
    | nil =>
      rw [scan] at hb
      cases hb
      simp [nextOffset]
    | cons c rest =>
      obtain ⟨form, n, more, -, -, rfl⟩ := scan_cons_eq_ok_iff.1 hb
      rfl
  have hshift : shiftResult a.length (tokenize b) = .ok after := by
    rw [← hb, tokenize, ← scan_shift, Nat.add_zero]
  cases hafter : tokenize b with
  | error e =>
    rw [hafter] at hshift
    cases hshift
  | ok after' =>
    rw [hafter] at hshift
    obtain rfl := Except.ok.inj hshift
    exact ⟨a, b, before, after', rfl, hlength, by rw [hlength], ha, hafter⟩

/-- The tokens of a template start before its end. -/
theorem offset_lt_of_tokenize {t : Text} {tokens : List Token} (h : tokenize t = .ok tokens) :
    ∀ token ∈ tokens, token.offset < t.length := by
  intro token hm
  obtain ⟨before, after, rfl⟩ := List.append_of_mem hm
  exact ((tokenize_eq_ok_iff.1 h).fits before token after rfl).lt.2

/-- Templates and their tokens are put together and cut in the same way. To a template that can be split, another one can be
added that is empty or starts with a `#`: the tokens are those of the first and then those of the second, which start later by
the length of the first, and if the second cannot be split, neither can the whole, for the parenthesis at the same place. And a
template can be cut at any boundary of its tokens: the first part has the tokens before the boundary, and the second those from
it on, which start earlier by its offset. -/
theorem tokenize_at_seam :
    (∀ (a b : Text) (tokens : List Token), tokenize a = .ok tokens → (∀ c ∈ b.head?, c = '#') →
      (∀ others, tokenize b = .ok others → tokenize (a ++ b) = .ok (tokens ++ others.map (shift a.length))) ∧
      ∀ p, tokenize b = .error ⟨p⟩ → tokenize (a ++ b) = .error ⟨a.length + p⟩) ∧
    ∀ (t : Text) (tokens : List Token) (k : Nat), tokenize t = .ok tokens → IsBoundary t tokens k →
      tokenize (t.take k) = .ok (tokens.filter (·.offset < k)) ∧
      tokenize (t.drop k) = .ok ((tokens.filter (k ≤ ·.offset)).map (lower k)) := by
  constructor
  · intro a b tokens ha hb
    have hwhole : tokenize (a ++ b) = (shiftResult a.length (tokenize b)).map (tokens ++ ·) := by
      rw [tokenize, scan_append ha hb, tokenize, ← scan_shift, Nat.zero_add, Nat.add_zero]
    constructor
    · intro others ho
      rw [hwhole, ho]
      rfl
    · intro p hp
      rw [hwhole, hp]
      rfl
  · intro t tokens k h hk
    obtain ⟨a, b, before, after, rfl, rfl, rfl, ha, hb⟩ := cut_at_boundary h hk
    have hbefore : ∀ token ∈ before, token.offset < a.length := offset_lt_of_tokenize ha
    have hafter : ∀ token ∈ after.map (shift a.length), a.length ≤ token.offset := by
      intro token hm
      obtain ⟨token, -, rfl⟩ := List.mem_map.1 hm
      exact Nat.le_add_right _ _
    rw [List.take_left, List.drop_left, List.filter_append, List.filter_append]
    constructor
    · rw [List.filter_eq_self.2 fun token hm => decide_eq_true (hbefore token hm),
        List.filter_eq_nil_iff.2 fun token hm => by simpa using hafter token hm, List.append_nil, ha]
    · rw [List.filter_eq_nil_iff.2 fun token hm => by simpa using hbefore token hm,
        List.filter_eq_self.2 fun token hm => decide_eq_true (hafter token hm), List.nil_append, List.map_map, hb]
      simp [Function.comp_def, lower_shift]

/-- A template that ends like the start of a directive, with one after it that is complete and with one that is not; and the cut
between a `#` by itself and what comes after it. -/
theorem tokenize_at_seam_unfinished_head :
    let a : Text := "#else#if"
    let tokens : List Token := [⟨0, .otherwise⟩, ⟨5, .text "#"⟩, ⟨6, .text "if"⟩]
    tokenize a = .ok tokens ∧
      (tokenize "#if(x)" = .ok [⟨0, .cond "x"⟩] ∧ tokenize (a ++ "#if(x)") = .ok (tokens ++ [⟨8, .cond "x"⟩])) ∧
      (tokenize "#if (x" = .error ⟨4⟩ ∧ tokenize (a ++ "#if (x") = .error ⟨12⟩) ∧
      (IsBoundary a tokens 6 ∧ tokenize "#else#" = .ok [⟨0, .otherwise⟩, ⟨5, .text "#"⟩] ∧
        tokenize "if" = .ok [⟨0, .text "if"⟩]) := by
  intro a tokens
  have hend : ∀ o, scan o [] = .ok [] := fun o => by rw [scan]
  have hif : scan 6 ['i', 'f'] = .ok [⟨6, .text "if"⟩] := scan_cons_eq_ok_iff.2 ⟨_, 1, _, rfl, hend _, rfl⟩
  have hhash : scan 5 ['#', 'i', 'f'] = .ok [⟨5, .text "#"⟩, ⟨6, .text "if"⟩] :=
    scan_cons_eq_ok_iff.2 ⟨_, 0, _, rfl, hif, rfl⟩
  have ha : tokenize a = .ok tokens := scan_cons_eq_ok_iff.2 ⟨_, 4, _, rfl, hhash, rfl⟩
  have hclosed : tokenize "#if(x)" = .ok [⟨0, .cond "x"⟩] := scan_cons_eq_ok_iff.2 ⟨_, 5, _, rfl, hend _, rfl⟩
  have hopen : tokenize ('#' :: "if (x") = .error ⟨4⟩ := by
    rw [tokenize, scan]
    rfl
  have hk : IsBoundary a tokens 6 := .inr ⟨⟨6, .text "if"⟩, by simp [tokens], rfl⟩
  obtain ⟨hjoin, hcut⟩ := tokenize_at_seam
  obtain ⟨hwhole, -⟩ := hjoin a "#if(x)" tokens ha (by rintro c ⟨⟩; rfl)
  obtain ⟨-, hfails⟩ := hjoin a "#if (x" tokens ha (by rintro c ⟨⟩; rfl)
  have hcut6 := hcut a tokens 6 ha hk
  have hlength : a.length = 8 := by decide
  rw [hlength] at hwhole hfails
  exact ⟨ha, ⟨hclosed, hwhole _ hclosed⟩, ⟨hopen, hfails 4 hopen⟩, hk, hcut6⟩

end Token

end Stencil
