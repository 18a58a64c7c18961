import Stencil.Proofs.Partition.Seam

/-!
# Directives that are never closed

There is one way only for a scan to fail: it comes to the head of a directive, and from the opening parenthesis there up to the end
of the template more parentheses are opened than closed at every place (`neverCloses_of_start`). Such a directive takes up all that
follows it, so it can be repaired at the end of the template, by as many closing parentheses as are open there and no fewer
(`tokenize_unterminated`).
-/

namespace Stencil

/-- Every first part of a text opens more parentheses than it closes. -/
def NeverCloses (t : Text) : Prop := ∀ p : Text, p <+: t → p ≠ [] → p.count ')' < p.count '('

namespace Token

/-! ## The search for the closing parenthesis -/

/-- With as many parentheses open before it as given, every first part of a text leaves one open. -/
def LeavesOpen (depth : Int) (t : Text) : Prop := ∀ p : Text, p <+: t → (p.count ')' : Int) < p.count '(' + depth

variable {depth : Int} {t after : Text}

/-- A character more before a text that leaves a parenthesis open. -/
theorem leavesOpen_cons_iff {c : Char} : LeavesOpen depth (c :: t) ↔ 0 < depth ∧ LeavesOpen (depth + depthChange c) t := by
  constructor
  · intro h
    refine ⟨by simpa using h [] List.nil_prefix, fun p hp => ?_⟩
    have hcp := h (c :: p) (List.cons_prefix_cons.2 ⟨rfl, hp⟩)
    have hcount := count_cons_depthChange c p
    omega
  · rintro ⟨hd, h⟩ p hp
    cases p with
    | nil => simpa using hd
    | cons d p =>
      obtain ⟨rfl, hp'⟩ := List.cons_prefix_cons.1 hp
      have hdp := h p hp'
      have hcount := count_cons_depthChange d p
      omega

/-- A text never closes a parenthesis before it exactly if it leaves that one open. -/
theorem neverCloses_iff : NeverCloses ('(' :: t) ↔ LeavesOpen 1 t := by
  have hcount : ∀ p : Text, ('(' :: p).count ')' < ('(' :: p).count '(' ↔ (p.count ')' : Int) < p.count '(' + 1 := by
    intro p
    have hchange : depthChange '(' = 1 := rfl
    have hp := count_cons_depthChange '(' p
    omega
  constructor
  · intro h p hp
    exact (hcount p).1 (h ('(' :: p) (List.cons_prefix_cons.2 ⟨rfl, hp⟩) (List.cons_ne_nil _ _))
  · intro h p hp hne
    cases p with
    | nil => exact absurd rfl hne
    | cons c p =>
      obtain ⟨rfl, hp'⟩ := List.cons_prefix_cons.1 hp
      exact (hcount p).2 (h p hp')

/-- No closing parenthesis is found exactly if one is left open everywhere. By induction on the text. -/
theorem closingIndex?_eq_none_iff (hd : 0 < depth) : closingIndex? depth t = none ↔ LeavesOpen depth t := by
  induction t generalizing depth with
  | nil =>
    refine ⟨fun _ p hp => ?_, fun _ => rfl⟩
    rw [List.prefix_nil.1 hp]
    simpa using hd
  | cons c t ih =>
    rw [closingIndex?_cons, leavesOpen_cons_iff]
    by_cases hc : c = ')' ∧ depth = 1
    · obtain ⟨rfl, rfl⟩ := hc
      rw [if_pos ⟨rfl, rfl⟩]
      refine iff_of_false nofun fun ⟨_, h⟩ => ?_
      have hnil := h [] List.nil_prefix
      simp [depthChange] at hnil
    · rw [if_neg hc, Option.map_eq_none_iff]
      by_cases hd' : 0 < depth + depthChange c
      · rw [ih hd', and_iff_right hd]
      · -- Only the parenthesis that closes the last one open takes the depth to zero.
        unfold depthChange at hd'
        split at hd'
        · omega
        · split at hd'
          · rename_i hclose
            exact absurd ⟨hclose, by omega⟩ hc
          · omega

/-- A parenthesis at the start of a text holds nothing exactly if it is never closed. -/
theorem parenthesized?_eq_none_iff : parenthesized? ('(' :: t) = none ↔ NeverCloses ('(' :: t) := by
  have h0 : closingIndex? 0 ('(' :: t) = (closingIndex? 1 t).map (· + 1) := rfl
  rw [parenthesized?, h0, Option.map_map, Option.map_eq_none_iff, closingIndex?_eq_none_iff Int.one_pos, neverCloses_iff]

/-! ## Missing parentheses -/

/-- With fewer closing parentheses at the end than are missing, a text still leaves one open. -/
theorem LeavesOpen.append {k : Nat} (h : LeavesOpen depth t) (hk : (t.count ')' : Int) + k < t.count '(' + depth) :
    LeavesOpen depth (t ++ List.replicate k ')') := by
  intro p hp
  obtain ⟨rest, hp⟩ := hp
  obtain ⟨more, rfl, -⟩ | ⟨more, rfl, hmore⟩ := List.append_eq_append_iff.1 hp
  · exact h p (List.prefix_append _ _)
  · obtain ⟨hlength, hreplicate, -⟩ := List.append_eq_replicate_iff.1 hmore.symm
    have hle : more.length ≤ k := by omega
    rw [List.count_append, List.count_append, hreplicate, List.count_replicate, List.count_replicate]
    simp only [beq_self_eq_true, if_true, Char.reduceBEq, Bool.false_eq_true, if_false]
    omega

/-- With all closing parentheses at the end that are missing but one, what comes after a parenthesis is balanced. -/
theorem balanced_repaired {d : Nat} (h : LeavesOpen 1 t) (hd : t.count '(' + 1 = t.count ')' + (d + 1)) :
    Balanced (t ++ List.replicate d ')') := by
  have hopen : LeavesOpen 1 (t ++ List.replicate d ')') := h.append (by omega)
  refine ⟨fun p hp => ?_, ?_⟩
  · have hp' := hopen p hp
    omega
  · rw [List.count_append, List.count_append, List.count_replicate, List.count_replicate]
    simp only [beq_self_eq_true, if_true, Char.reduceBEq, Bool.false_eq_true, if_false]
    omega

/-! ## Where a scan comes to -/

/-- A scan of a text from an offset reads tokens and comes to another offset, with the rest of the text left over. -/
inductive Scans : Nat → Text → List Token → Nat → Text → Prop
  /-- It has not started. -/
  | start {o : Nat} {t : Text} : Scans o t [] o t
  /-- It reads a token and goes on behind it. -/
  | token {o stop : Nat} {c : Char} {used next left : Text} {form : Form} {tokens : List Token} :
      Token.start c (used ++ next) = .ok (form, used.length) → Scans (o + 1 + used.length) next tokens stop left →
      Scans o (c :: (used ++ next)) (⟨o, form⟩ :: tokens) stop left

/-- What a scan has passed is a text by itself, with the tokens that were read. By induction on the scan. -/
theorem Scans.split {o stop : Nat} {left : Text} {tokens : List Token} (h : Scans o t tokens stop left) :
    ∃ a, t = a ++ left ∧ stop = o + a.length ∧ scan o a = .ok tokens := by
  induction h with
  | start => exact ⟨[], rfl, rfl, by rw [scan]⟩
  | @token o stop c used next left form tokens hstart _ ih =>
    obtain ⟨a, rfl, rfl, ha⟩ := ih
    refine ⟨c :: (used ++ a), by simp, ?_, ?_⟩
    · rw [List.length_cons, List.length_append]
      omega
    · rw [scan_cons_of_start (start_of_append hstart), ha]
      rfl

/-- A scan that fails comes to a place where what starts is an error. By induction on how much of the text is left. -/
theorem scans_of_scan_error {o : Nat} {e : Unterminated} (h : scan o t = .error e) :
    ∃ tokens stop c rest distance, Scans o t tokens stop (c :: rest) ∧ start c rest = .error distance ∧
      e = ⟨stop + distance⟩ := by
  induction hlen : t.length using Nat.strongRecOn generalizing o t with
  | _ n ih =>
  cases t with
  | nil =>
    rw [scan] at h
    cases h
  | cons c rest =>
    cases hstart : start c rest with
    | error distance =>
      rw [scan] at h
      simp only [hstart] at h
      cases h
      exact ⟨[], o, c, rest, distance, .start, hstart, rfl⟩
    | ok found =>
      obtain ⟨form, k⟩ := found
      obtain ⟨used, next, rfl, rfl⟩ := exists_used_of_start hstart
      rw [scan_cons_of_start hstart] at h
      cases hnext : scan (o + 1 + used.length) next with
      | ok tokens =>
        rw [hnext] at h
        cases h
      | error e' =>
        rw [hnext] at h
        obtain rfl : e' = e := Except.error.inj h
        rw [List.length_cons, List.length_append] at hlen
        obtain ⟨tokens, stop, d, left, distance, hs, herror, he⟩ := ih next.length (by omega) hnext rfl
        exact ⟨_, stop, d, left, distance, .token hstart hs, herror, he⟩

/-- What starts with a character is an error if it is the head of a directive whose parenthesis is never closed. -/
theorem start_of_neverCloses (opener : Opener) {gap : Text} (hg : ∀ c ∈ gap, c = ' ' ∨ c = '\t')
    (h : NeverCloses ('(' :: after)) :
    start '#' (opener.keyword ++ (gap ++ '(' :: after)) = .error (opener.keyword.length + gap.length + 1) := by
  have hhead : Opener.ofHead? (opener.keyword ++ (gap ++ '(' :: after)) =
      some (opener, opener.keyword.length + gap.length) :=
    Opener.ofHead?_eq_some_iff.2 (Opener.headLength?_eq_some_iff.2 ⟨gap, after, hg, rfl, rfl⟩)
  simp only [start, if_true, hhead, drop_append_append, parenthesized?_eq_none_iff.2 h]

/-- Nothing else that starts with a character is an error. -/
theorem neverCloses_of_start {c : Char} {rest : Text} {distance : Nat} (h : start c rest = .error distance) :
    c = '#' ∧ ∃ (opener : Opener) (gap after : Text), (∀ c ∈ gap, c = ' ' ∨ c = '\t') ∧
      rest = opener.keyword ++ (gap ++ '(' :: after) ∧ NeverCloses ('(' :: after) ∧
      distance = opener.keyword.length + gap.length + 1 := by
  unfold start at h
  by_cases hc : c = '#'
  · rw [if_pos hc] at h
    cases hhead : Opener.ofHead? rest with
    | none =>
      simp only [hhead] at h
      split at h
      · cases h
      · split at h <;> cases h
    | some found =>
      obtain ⟨opener, n⟩ := found
      obtain ⟨gap, after, hg, rfl, rfl⟩ := Opener.headLength?_eq_some_iff.1 (Opener.ofHead?_eq_some_iff.1 hhead)
      simp only [hhead, drop_append_append] at h
      cases hp : parenthesized? ('(' :: after) with
      | some held =>
        rw [hp] at h
        cases h
      | none =>
        rw [hp] at h
        cases h
        exact ⟨hc, opener, gap, after, hg, rfl, parenthesized?_eq_none_iff.1 hp, rfl⟩
  · rw [if_neg hc] at h
    cases h

/-! ## Templates with a directive that is never closed -/

/-- The head of a directive stands in a template from one offset up to another, at which its parenthesis opens. -/
def HeadAt (template : Text) (opener : Opener) (o p : Nat) : Prop :=
  template[p]? = some '(' ∧
    ∃ gap : Text, (∀ c ∈ gap, c = ' ' ∨ c = '\t') ∧ template.extract o p = '#' :: (opener.keyword ++ gap)

/-- A template with the head of a directive in it is what comes before the head, the head, a parenthesis and what comes after. -/
theorem headAt_iff {template : Text} {opener : Opener} {o p : Nat} :
    HeadAt template opener o p ↔ ∃ a gap after : Text, (∀ c ∈ gap, c = ' ' ∨ c = '\t') ∧
      template = a ++ '#' :: (opener.keyword ++ (gap ++ '(' :: after)) ∧ o = a.length ∧
      p = a.length + (opener.keyword.length + gap.length + 1) := by
  constructor
  · rintro ⟨hp, gap, hg, hhead⟩
    obtain ⟨hlt, hget⟩ := List.getElem?_eq_some_iff.1 hp
    rw [List.extract_eq_take_drop] at hhead
    have hlength := congrArg List.length hhead
    rw [List.length_take, List.length_drop, List.length_cons, List.length_append] at hlength
    have hparen : template.drop (o + (p - o)) = '(' :: template.drop (p + 1) := by
      rw [show o + (p - o) = p by omega, ← hget]
      exact List.drop_eq_getElem_cons hlt
    refine ⟨template.take o, gap, template.drop (p + 1), hg, ?_, ?_, ?_⟩
    · calc template = template.take o ++ ((template.drop o).take (p - o) ++ (template.drop o).drop (p - o)) := by
            rw [List.take_append_drop, List.take_append_drop]
        _ = _ := by rw [hhead, List.drop_drop, hparen, List.cons_append, List.append_assoc]
    · rw [List.length_take]
      omega
    · rw [List.length_take]
      omega
  · rintro ⟨a, gap, after, hg, rfl, rfl, rfl⟩
    have hlength : ('#' :: (opener.keyword ++ gap)).length = opener.keyword.length + gap.length + 1 := by simp
    have hsplit : a ++ '#' :: (opener.keyword ++ (gap ++ '(' :: after)) =
        a ++ ('#' :: (opener.keyword ++ gap) ++ '(' :: after) := by simp
    rw [HeadAt, hsplit, ← hlength]
    refine ⟨?_, gap, hg, ?_⟩
    · rw [← List.length_append, ← List.append_assoc, List.getElem?_append_right (Nat.le_refl _), Nat.sub_self]
      rfl
    · rw [List.extract_eq_take_drop, List.drop_left, Nat.add_sub_cancel_left, List.take_left]

section

variable {a gap : Text} {tokens : List Token} {opener : Opener}

/-- A template that can be split, with a directive behind it that is never closed, cannot be split, for the parenthesis of the
directive. -/
theorem tokenize_of_neverCloses (ha : tokenize a = .ok tokens) (hg : ∀ c ∈ gap, c = ' ' ∨ c = '\t')
    (h : NeverCloses ('(' :: after)) :
    tokenize (a ++ '#' :: (opener.keyword ++ (gap ++ '(' :: after))) =
      .error ⟨a.length + (opener.keyword.length + gap.length + 1)⟩ := by
  rw [tokenize, scan_append ha (fun c hc => by cases hc; rfl), scan]
  simp only [start_of_neverCloses opener hg h, Nat.zero_add]
  rfl

/-- A template that can be split, with a directive behind it, has the token of the directive after its own. -/
theorem tokenize_of_balanced {content : Text} (ha : tokenize a = .ok tokens) (hg : ∀ c ∈ gap, c = ' ' ∨ c = '\t')
    (h : Balanced content) :
    tokenize (a ++ '#' :: (opener.keyword ++ (gap ++ '(' :: (content ++ [')'])))) =
      .ok (tokens ++ [⟨a.length, opener.form content⟩]) := by
  have hsource : Parenthesized ('#' :: opener.keyword) content ('#' :: (opener.keyword ++ (gap ++ '(' :: (content ++ [')'])))) :=
    ⟨⟨gap, hg, rfl⟩, h⟩
  have hscan : scan a.length ('#' :: (opener.keyword ++ (gap ++ '(' :: (content ++ [')'])) ++ [])) = _ :=
    scan_cons_of_start (start_parenthesized hsource)
  rw [List.append_nil, scan] at hscan
  rw [tokenize, scan_append ha (fun c hc => by cases hc; rfl), Nat.zero_add, hscan]
  rfl

end

/-- Where a scan comes to the head of a directive, the template is cut into what is split already, the head, a parenthesis and what
comes after. -/
theorem cut_at_head {template : Text} {tokens : List Token} {opener : Opener} {o p : Nat}
    (hs : Scans 0 template tokens o (template.drop o)) (hh : HeadAt template opener o p) :
    ∃ a gap after : Text, (∀ c ∈ gap, c = ' ' ∨ c = '\t') ∧
      template = a ++ '#' :: (opener.keyword ++ (gap ++ '(' :: after)) ∧ o = a.length ∧
      p = a.length + (opener.keyword.length + gap.length + 1) ∧ template.drop p = '(' :: after ∧ tokenize a = .ok tokens := by
  obtain ⟨a, gap, after, hg, rfl, rfl, rfl⟩ := headAt_iff.1 hh
  obtain ⟨a', heq, -, ha⟩ := hs.split
  rw [List.drop_left] at heq
  obtain rfl := List.append_cancel_right heq
  refine ⟨a, gap, after, hg, rfl, rfl, rfl, ?_, ha⟩
  rw [← List.drop_drop, List.drop_left, List.drop_succ_cons, drop_append_append]

/-- Directives that are never closed are told exactly and can be repaired. A template cannot be split exactly if its scan comes to
the head of a directive and from the parenthesis there every first part of what is left opens more parentheses than it closes; the
error is the offset of that parenthesis. Then there is a count of parentheses that are left open at the end. With that many closing
ones behind it, the template is split into the tokens before the directive and the directive, which holds all that came after its
parenthesis and all of the closing ones but the last; with fewer, the error stays the same. -/
theorem tokenize_unterminated (template : Text) :
    (∀ p, tokenize template = .error ⟨p⟩ ↔ ∃ tokens o opener, Scans 0 template tokens o (template.drop o) ∧
      HeadAt template opener o p ∧ NeverCloses (template.drop p)) ∧
    ∀ tokens o opener p, Scans 0 template tokens o (template.drop o) → HeadAt template opener o p →
      NeverCloses (template.drop p) →
      ∃ d, 0 < d ∧ (template.drop p).count '(' = (template.drop p).count ')' + d ∧
        tokenize (template.take o) = .ok tokens ∧
        tokenize (template ++ List.replicate d ')') =
          .ok (tokens ++ [⟨o, opener.form (template.drop (p + 1) ++ List.replicate (d - 1) ')')⟩]) ∧
        ∀ k < d, tokenize (template ++ List.replicate k ')') = .error ⟨p⟩ := by
  constructor
  · intro p
    constructor
    · intro h
      obtain ⟨tokens, o, c, rest, distance, hs, hstart, he⟩ := scans_of_scan_error h
      obtain ⟨rfl, opener, gap, after, hg, rfl, hnever, rfl⟩ := neverCloses_of_start hstart
      obtain ⟨a, rfl, rfl, -⟩ := hs.split
      obtain rfl := Unterminated.mk.inj he
      rw [Nat.zero_add] at hs ⊢
      refine ⟨tokens, a.length, opener, ?_, headAt_iff.2 ⟨a, gap, after, hg, rfl, rfl, rfl⟩, ?_⟩
      · rw [List.drop_left]
        exact hs
      · rw [← List.drop_drop, List.drop_left, List.drop_succ_cons, drop_append_append]
        exact hnever
    · rintro ⟨tokens, o, opener, hs, hh, hnever⟩
      obtain ⟨a, gap, after, hg, rfl, rfl, rfl, hdrop, ha⟩ := cut_at_head hs hh
      rw [hdrop] at hnever
      exact tokenize_of_neverCloses ha hg hnever
  · intro tokens o opener p hs hh hnever
    obtain ⟨a, gap, after, hg, rfl, rfl, rfl, hdrop, ha⟩ := cut_at_head hs hh
    rw [hdrop] at hnever ⊢
    have hopen := neverCloses_iff.1 hnever
    -- The whole rest of the template is a first part of itself.
    have hlt := hnever _ List.prefix_rfl (List.cons_ne_nil _ _)
    obtain ⟨d, hd⟩ : ∃ d, after.count '(' + 1 = after.count ')' + (d + 1) := by
      refine ⟨after.count '(' - after.count ')', ?_⟩
      have hle := hopen after List.prefix_rfl
      omega
    have hcount : ('(' :: after).count '(' = ('(' :: after).count ')' + (d + 1) := by
      rw [List.count_cons, List.count_cons]
      simpa using hd
    have happend : ∀ ending : Text, a ++ '#' :: (opener.keyword ++ (gap ++ '(' :: after)) ++ ending =
        a ++ '#' :: (opener.keyword ++ (gap ++ '(' :: (after ++ ending))) := by simp
    have hcontent : (a ++ '#' :: (opener.keyword ++ (gap ++ '(' :: after))).drop
        (a.length + (opener.keyword.length + gap.length + 1) + 1) = after := by
      rw [← List.drop_drop, hdrop, List.drop_succ_cons, List.drop_zero]
    refine ⟨d + 1, Nat.succ_pos d, hcount, ?_, ?_, fun k hk => ?_⟩
    · rw [List.take_left]
      exact ha
    · have hlast : after ++ List.replicate (d + 1) ')' = after ++ List.replicate d ')' ++ [')'] := by
        rw [List.replicate_succ', List.append_assoc]
      rw [happend, hlast, hcontent, Nat.add_sub_cancel]
      exact tokenize_of_balanced ha hg (balanced_repaired hopen hd)
    · rw [happend]
      exact tokenize_of_neverCloses ha hg (neverCloses_iff.2 (hopen.append (by omega)))

/-- A condition that is never closed takes a call, the end of a chain and one more parenthesis along. -/
theorem tokenize_unterminated_condition :
    let template : Text := "a#if (f()#end(x"
    let tokens : List Token := [⟨0, .text "a"⟩]
    (Scans 0 template tokens 1 (template.drop 1) ∧ HeadAt template .condition 1 5 ∧ NeverCloses (template.drop 5)) ∧
      tokenize template = .error ⟨5⟩ ∧
      tokenize "a#if (f()#end(x))" = .ok [⟨0, .text "a"⟩, ⟨1, .cond "f()#end(x)"⟩] ∧
      tokenize "a#if (f()#end(x)" = .error ⟨5⟩ := by
  intro template tokens
  have hstart : start 'a' ([] ++ template.drop 1) = .ok (.text "a", 0) := rfl
  have hs : Scans 0 template tokens 1 (template.drop 1) := .token hstart .start
  have hh : HeadAt template .condition 1 5 := ⟨rfl, [' '], by simp, rfl⟩
  have hnever : NeverCloses (template.drop 5) := parenthesized?_eq_none_iff.1 rfl
  obtain ⟨herror, hrepair⟩ := tokenize_unterminated template
  obtain ⟨d, hd, hcount, -, hrepaired, hfewer⟩ := hrepair tokens 1 .condition 5 hs hh hnever
  obtain rfl : d = 2 := by
    have hopened : (template.drop 5).count '(' = 3 := by decide
    have hclosed : (template.drop 5).count ')' = 1 := by decide
    omega
  exact ⟨⟨hs, hh, hnever⟩, (herror 5).2 ⟨tokens, 1, .condition, hs, hh, hnever⟩, hrepaired, hfewer 1 (by decide)⟩

end Token

end Stencil
