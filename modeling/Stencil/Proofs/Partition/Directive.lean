import Stencil.Proofs.Partition.Basic

/-!
# What starts at a place of a template

The recognisers of the scanner find exactly the pieces that partitions are made of: the head of a directive with parentheses
(`headLength?_eq_some_iff`), of which at most one starts a text (`headLength?_inj`); the parenthesis that closes another
(`closingIndex?_eq_some_iff`); and, from these, the form that starts with a character, which is the one that is written down
there (`source_of_start`, `start_of_source`).
-/

namespace Stencil

/-- What is left of a text is what follows its start. -/
theorem Text.dropStart?_eq_some_iff {start t rest : Text} : dropStart? start t = some rest ↔ t = start ++ rest := by
  induction start generalizing t with
  | nil => simp [dropStart?]
  | cons c start ih =>
    cases t with
    | nil => simp [dropStart?]
    | cons d t =>
      rw [dropStart?, List.cons_append, List.cons.injEq]
      by_cases hc : c = d
      · simp [hc, ih]
      · simp [hc, Ne.symm hc]

theorem drop_append_append (a b c : Text) : (a ++ (b ++ c)).drop (a.length + b.length) = c := by
  rw [← List.drop_drop, List.drop_left, List.drop_left]

/-! ## Heads of directives -/

namespace Opener

/-- The head of a directive is its keyword and any spaces and tabs, before an opening parenthesis. -/
theorem headLength?_eq_some_iff {opener : Opener} {t : Text} {n : Nat} :
    opener.headLength? t = some n ↔ ∃ gap after : Text, (∀ c ∈ gap, c = ' ' ∨ c = '\t') ∧
      t = opener.keyword ++ (gap ++ '(' :: after) ∧ n = opener.keyword.length + gap.length := by
  unfold headLength?
  constructor
  · intro h
    split at h
    · cases h
    · rename_i after ha
      rw [Text.dropStart?_eq_some_iff] at ha
      simp only at h
      split at h
      · rename_i more hm
        refine ⟨_, more, fun c hc => ?_, ?_, (Option.some.inj h).symm⟩
        · simpa using List.all_eq_true.1 List.all_takeWhile c hc
        · -- The gap is a prefix of what follows the keyword.
          have hgap := List.prefix_iff_eq_take.1 (after.takeWhile_prefix fun c => c = ' ' || c = '\t')
          rw [← hm, ha]
          congr 1
          exact (List.take_append_drop _ after).symm.trans (congrArg (· ++ _) hgap.symm)
      · cases h
  · rintro ⟨gap, after, hg, rfl, rfl⟩
    have ht : (gap ++ '(' :: after).takeWhile (fun c => c = ' ' || c = '\t') = gap :=
      Text.takeWhile_append (fun c hc => by simpa using hg c hc) (fun c hc => by cases hc; rfl)
    simp only [Text.dropStart?_eq_some_iff.2 rfl, ht, List.drop_left]

/-- The keywords differ in their first character. -/
theorem keyword_inj {a b : Opener} {s t : Text} (h : a.keyword ++ s = b.keyword ++ t) : a = b := by
  have hh := congrArg List.head? h
  cases a <;> cases b <;> first | rfl | cases hh

/-- The head of one directive at most starts a text. -/
theorem headLength?_inj {a b : Opener} {t : Text} {m n : Nat} (ha : a.headLength? t = some m)
    (hb : b.headLength? t = some n) : a = b ∧ m = n := by
  obtain ⟨gap, after, -, ht, -⟩ := headLength?_eq_some_iff.1 ha
  obtain ⟨gap', after', -, ht', -⟩ := headLength?_eq_some_iff.1 hb
  obtain rfl := keyword_inj (ht.symm.trans ht')
  exact ⟨rfl, Option.some.inj (ha.symm.trans hb)⟩

/-- The head that is found is the one that starts the text. -/
theorem ofHead?_eq_some_iff {t : Text} {opener : Opener} {n : Nat} :
    ofHead? t = some (opener, n) ↔ opener.headLength? t = some n := by
  have hfound : ∀ {a m}, ofHead? t = some (a, m) → a.headLength? t = some m := by
    intro a m h
    obtain ⟨b, -, hb⟩ := List.exists_of_findSome?_eq_some h
    rw [Option.map_eq_some_iff] at hb
    obtain ⟨k, hk, heq⟩ := hb
    cases heq
    exact hk
  constructor
  · exact hfound
  · intro h
    cases ho : ofHead? t with
    | some found =>
      obtain ⟨b, m⟩ := found
      obtain ⟨rfl, rfl⟩ := headLength?_inj h (hfound ho)
      rfl
    | none =>
      have hn := List.findSome?_eq_none_iff.1 ho opener (by cases opener <;> decide)
      rw [h] at hn
      cases hn

/-- No head is found exactly if no directive with parentheses opens. -/
theorem ofHead?_eq_none_iff {t : Text} :
    ofHead? t = none ↔ ∀ (opener : Opener) (after : Text), ¬ Opens opener.keyword t after := by
  constructor
  · rintro h opener after ⟨gap, hg, ht⟩
    have hn := headLength?_eq_some_iff.2 ⟨gap, after, hg, ht, rfl⟩
    rw [← ofHead?_eq_some_iff, h] at hn
    cases hn
  · intro h
    cases ho : ofHead? t with
    | none => rfl
    | some found =>
      obtain ⟨gap, after, hg, ht, -⟩ := headLength?_eq_some_iff.1 (ofHead?_eq_some_iff.1 ho)
      exact absurd ⟨gap, hg, ht⟩ (h found.1 after)

end Opener

namespace Token

/-! ## Closing parentheses -/

/-- The next character after a content is the one that closes as many parentheses as are open before it. -/
def Closes (depth : Int) (content : Text) : Prop :=
  (∀ p : Text, p <+: content → (p.count ')' : Int) < p.count '(' + depth) ∧
    (content.count ')' : Int) + 1 = content.count '(' + depth

/-- By how much a character changes the number of open parentheses. -/
def depthChange (c : Char) : Int := if c = '(' then 1 else if c = ')' then -1 else 0

/-- How many parentheses a character more opens and closes. -/
theorem count_cons_depthChange (c : Char) (t : Text) :
    ((c :: t).count '(' : Int) - (c :: t).count ')' = t.count '(' - t.count ')' + depthChange c := by
  unfold depthChange
  rw [List.count_cons, List.count_cons]
  by_cases ho : c = '('
  · subst ho
    simp
    omega
  · by_cases hc : c = ')'
    · subst hc
      simp
      omega
    · simp [ho, hc]

/-- A character more before a content. -/
theorem closes_cons_iff {depth : Int} {c : Char} {content : Text} :
    Closes depth (c :: content) ↔ 0 < depth ∧ Closes (depth + depthChange c) content := by
  unfold Closes
  have hcontent := count_cons_depthChange c content
  constructor
  · rintro ⟨hp, ht⟩
    refine ⟨by simpa using hp [] List.nil_prefix, fun p hpre => ?_, by omega⟩
    have hpc := hp (c :: p) (List.cons_prefix_cons.2 ⟨rfl, hpre⟩)
    have hcount := count_cons_depthChange c p
    omega
  · rintro ⟨hd, hp, ht⟩
    refine ⟨fun p hpre => ?_, by omega⟩
    cases p with
    | nil => simpa using hd
    | cons d p =>
      obtain ⟨rfl, hpre'⟩ := List.cons_prefix_cons.1 hpre
      have hpd := hp p hpre'
      have hcount := count_cons_depthChange d p
      omega

/-- The content between a pair of parentheses is balanced. -/
theorem closes_one_iff {content : Text} : Closes 1 content ↔ Balanced content := by
  unfold Closes Balanced
  constructor
  · rintro ⟨hp, ht⟩
    refine ⟨fun p hpre => ?_, by omega⟩
    have := hp p hpre
    omega
  · rintro ⟨hp, ht⟩
    refine ⟨fun p hpre => ?_, by omega⟩
    have := hp p hpre
    omega

/-- One step of the search for the closing parenthesis. -/
theorem closingIndex?_cons (depth : Int) (c : Char) (rest : Text) : closingIndex? depth (c :: rest) =
    if c = ')' ∧ depth = 1 then some 0 else (closingIndex? (depth + depthChange c) rest).map (· + 1) := by
  rw [closingIndex?]
  unfold depthChange
  by_cases ho : c = '('
  · subst ho
    simp
  · by_cases hc : c = ')'
    · subst hc
      simp [Int.sub_eq_add_neg]
    · simp [ho, hc]

/-- The closing parenthesis is found where there is one. -/
theorem closingIndex?_eq_some_iff {depth : Int} (hd : 0 < depth) {t : Text} {i : Nat} :
    closingIndex? depth t = some i ↔
      ∃ content after : Text, t = content ++ ')' :: after ∧ Closes depth content ∧ i = content.length := by
  induction t generalizing depth i with
  | nil => simp [closingIndex?]
  | cons c rest ih =>
    rw [closingIndex?_cons]
    by_cases hc : c = ')' ∧ depth = 1
    · rw [if_pos hc]
      obtain ⟨rfl, rfl⟩ := hc
      constructor
      · rintro h
        refine ⟨[], rest, rfl, closes_one_iff.2 ?_, (Option.some.inj h).symm⟩
        exact ⟨fun p hp => by simp [List.prefix_nil.1 hp], rfl⟩
      · rintro ⟨content, after, heq, hclose, rfl⟩
        cases content with
        | nil => rfl
        | cons d content =>
          -- A parenthesis that closes the last one cannot be part of the content.
          obtain rfl := (List.cons.inj heq).1
          have h0 := (closes_cons_iff.1 hclose).2.1 [] List.nil_prefix
          simp [depthChange] at h0
    · rw [if_neg hc, Option.map_eq_some_iff]
      have hd' : 0 < depth + depthChange c := by
        unfold depthChange
        by_cases ho : c = '('
        · rw [if_pos ho]
          omega
        · rw [if_neg ho]
          by_cases hcc : c = ')'
          · have : depth ≠ 1 := fun h => hc ⟨hcc, h⟩
            rw [if_pos hcc]
            omega
          · rw [if_neg hcc]
            omega
      constructor
      · rintro ⟨j, hj, rfl⟩
        obtain ⟨content, after, rfl, hclose, rfl⟩ := (ih hd').1 hj
        exact ⟨c :: content, after, rfl, closes_cons_iff.2 ⟨hd, hclose⟩, rfl⟩
      · rintro ⟨content, after, heq, hclose, rfl⟩
        cases content with
        | nil =>
          obtain rfl := (List.cons.inj heq).1
          have h1 := hclose.2
          simp at h1
          exact absurd ⟨rfl, h1.symm⟩ hc
        | cons d content =>
          obtain ⟨rfl, rfl⟩ := List.cons.inj heq
          exact ⟨content.length, (ih hd').2 ⟨content, after, rfl, (closes_cons_iff.1 hclose).2, rfl⟩, rfl⟩

/-- What a parenthesis at the start of a text holds is the balanced content up to the one that closes it. -/
theorem parenthesized?_eq_some_iff {t content : Text} {n : Nat} : parenthesized? ('(' :: t) = some (content, n) ↔
    Balanced content ∧ n = content.length + 2 ∧ ∃ after, t = content ++ ')' :: after := by
  have h0 : closingIndex? 0 ('(' :: t) = (closingIndex? 1 t).map (· + 1) := rfl
  unfold parenthesized?
  rw [h0, Option.map_map, Option.map_eq_some_iff]
  constructor
  · rintro ⟨i, hi, heq⟩
    obtain ⟨content', after, rfl, hclose, rfl⟩ := (closingIndex?_eq_some_iff Int.one_pos).1 hi
    simp at heq
    obtain ⟨rfl, rfl⟩ := heq
    exact ⟨closes_one_iff.1 hclose, rfl, after, rfl⟩
  · rintro ⟨hb, rfl, after, rfl⟩
    refine ⟨content.length, (closingIndex?_eq_some_iff Int.one_pos).2 ⟨content, after, rfl, closes_one_iff.2 hb, rfl⟩, ?_⟩
    simp

/-! ## What starts with a character -/

/-- The form of a directive is written down by its keyword after a `#` and what its parentheses hold. -/
theorem source_form (opener : Opener) (content piece : Text) :
    (opener.form content).Source piece ↔ Parenthesized ('#' :: opener.keyword) content piece := by
  cases opener <;> rfl

/-- The form of a directive with parentheses is always the right one. -/
theorem canonical_form (opener : Opener) (content here next : Text) : (opener.form content).Canonical here next := by
  cases opener <;> trivial

theorem opens_cons_iff {sign t after : Text} : Opens ('#' :: sign) ('#' :: t) after ↔ Opens sign t after := by
  simp only [Opens, List.cons_append, List.cons.injEq, true_and]

/-- No directive starts at a `#` exactly if neither a head nor a bare keyword is found after it. -/
theorem not_startsDirective_iff {t : Text} : ¬ StartsDirective ('#' :: t) ↔
    Opener.ofHead? t = none ∧ "else".toList.isPrefixOf t = false ∧ "end".toList.isPrefixOf t = false := by
  have helse : "#else".toList <+: '#' :: t ↔ "else".toList.isPrefixOf t = true := by
    rw [List.isPrefixOf_iff_prefix]
    exact List.prefix_cons_inj '#'
  have hend : "#end".toList <+: '#' :: t ↔ "end".toList.isPrefixOf t = true := by
    rw [List.isPrefixOf_iff_prefix]
    exact List.prefix_cons_inj '#'
  unfold StartsDirective
  rw [Opener.ofHead?_eq_none_iff, helse, hend]
  constructor
  · intro h
    refine ⟨fun opener after ho => ?_, ?_, ?_⟩
    · cases opener with
      | assignment => exact h (.inl ⟨after, opens_cons_iff.2 ho⟩)
      | condition => exact h (.inr (.inl ⟨after, opens_cons_iff.2 ho⟩))
      | alternative => exact h (.inr (.inr (.inl ⟨after, opens_cons_iff.2 ho⟩)))
    · exact Bool.eq_false_iff.2 fun he => h (.inr (.inr (.inr (.inl he))))
    · exact Bool.eq_false_iff.2 fun he => h (.inr (.inr (.inr (.inr he))))
  · rintro ⟨hhead, hno, hno'⟩ h
    rcases h with ⟨after, h⟩ | ⟨after, h⟩ | ⟨after, h⟩ | h | h
    · exact hhead .assignment after (opens_cons_iff.1 h)
    · exact hhead .condition after (opens_cons_iff.1 h)
    · exact hhead .alternative after (opens_cons_iff.1 h)
    · exact Bool.eq_false_iff.1 hno h
    · exact Bool.eq_false_iff.1 hno' h

/-- A directive with parentheses, read from its source. -/
theorem start_parenthesized {opener : Opener} {c : Char} {content used next : Text}
    (h : Parenthesized ('#' :: opener.keyword) content (c :: used)) :
    start c (used ++ next) = .ok (opener.form content, used.length) := by
  obtain ⟨⟨gap, hg, heq⟩, hb⟩ := h
  rw [List.cons_append, List.cons.injEq] at heq
  obtain ⟨rfl, rfl⟩ := heq
  have hhead : Opener.ofHead? (opener.keyword ++ (gap ++ '(' :: (content ++ [')'])) ++ next) =
      some (opener, opener.keyword.length + gap.length) := by
    rw [Opener.ofHead?_eq_some_iff, Opener.headLength?_eq_some_iff]
    exact ⟨gap, content ++ [')'] ++ next, hg, by simp, rfl⟩
  have hdrop : (opener.keyword ++ (gap ++ '(' :: (content ++ [')'])) ++ next).drop
      (opener.keyword.length + gap.length) = '(' :: (content ++ ')' :: next) := by
    simp only [List.append_assoc, List.cons_append, List.nil_append]
    exact drop_append_append _ _ _
  have hparen : parenthesized? ('(' :: (content ++ ')' :: next)) = some (content, content.length + 2) :=
    parenthesized?_eq_some_iff.2 ⟨hb, rfl, next, rfl⟩
  simp only [start, if_true, hhead, hdrop, hparen, List.length_append, List.length_cons, List.length_nil,
    Nat.add_assoc]

/-- A head and what its parentheses hold are the source of a directive. -/
theorem parenthesized_of_head {opener : Opener} {rest content : Text} {n size : Nat}
    (hn : opener.headLength? rest = some n) (hp : parenthesized? (rest.drop n) = some (content, size)) :
    ∃ used next, rest = used ++ next ∧ n + size = used.length ∧
      Parenthesized ('#' :: opener.keyword) content ('#' :: used) := by
  obtain ⟨gap, after, hg, rfl, rfl⟩ := Opener.headLength?_eq_some_iff.1 hn
  rw [drop_append_append] at hp
  obtain ⟨hb, rfl, more, rfl⟩ := parenthesized?_eq_some_iff.1 hp
  refine ⟨opener.keyword ++ (gap ++ '(' :: (content ++ [')'])), more, by simp, ?_, ⟨gap, hg, rfl⟩, hb⟩
  simp [Nat.add_assoc]

/-- What starts with a character is right: it is written down by the character and what belongs to it. -/
theorem source_of_start {c : Char} {rest : Text} {form : Form} {n : Nat} (h : start c rest = .ok (form, n)) :
    ∃ used next, rest = used ++ next ∧ n = used.length ∧ form.Source (c :: used) ∧ form.Canonical (c :: rest) next := by
  unfold start at h
  by_cases hc : c = '#'
  · subst hc
    rw [if_pos rfl] at h
    cases hh : Opener.ofHead? rest with
    | some found =>
      obtain ⟨opener, m⟩ := found
      simp only [hh] at h
      cases hp : parenthesized? (rest.drop m) with
      | none =>
        rw [hp] at h
        cases h
      | some held =>
        rw [hp] at h
        cases h
        obtain ⟨used, next, heq, hlen, hs⟩ := parenthesized_of_head (Opener.ofHead?_eq_some_iff.1 hh) hp
        exact ⟨used, next, heq, hlen, (source_form ..).2 hs, canonical_form ..⟩
    | none =>
      simp only [hh] at h
      cases he : "else".toList.isPrefixOf rest with
      | true =>
        obtain ⟨next, rfl⟩ := List.isPrefixOf_iff_prefix.1 he
        rw [he, if_pos rfl] at h
        cases h
        refine ⟨"else", next, rfl, rfl, rfl, fun after ho => ?_⟩
        exact Opener.ofHead?_eq_none_iff.1 hh .alternative after (opens_cons_iff.1 ho)
      | false =>
        cases hn : "end".toList.isPrefixOf rest with
        | true =>
          obtain ⟨next, rfl⟩ := List.isPrefixOf_iff_prefix.1 hn
          rw [he, hn, if_neg Bool.false_ne_true, if_pos rfl] at h
          cases h
          exact ⟨"end", next, rfl, rfl, rfl, trivial⟩
        | false =>
          rw [he, hn, if_neg Bool.false_ne_true, if_neg Bool.false_ne_true] at h
          cases h
          refine ⟨[], rest, rfl, rfl, ⟨List.cons_ne_nil _ _, rfl⟩, .inr ⟨rfl, ?_⟩⟩
          exact not_startsDirective_iff.2 ⟨hh, he, hn⟩
  · rw [if_neg hc] at h
    cases h
    refine ⟨rest.takeWhile (· ≠ '#'), rest.dropWhile (· ≠ '#'), List.takeWhile_append_dropWhile.symm, rfl,
      ⟨List.cons_ne_nil _ _, rfl⟩, .inl ⟨?_, ?_⟩⟩
    · intro hm
      rcases List.mem_cons.1 hm with rfl | hm
      · exact hc rfl
      · simpa using List.all_eq_true.1 List.all_takeWhile _ hm
    · intro d hd
      simpa using Text.not_of_mem_head?_dropWhile hd

/-- Of the directives with parentheses, one only starts like a branch without a condition. -/
theorem ofHead?_else {next : Text} (h : ∀ after, ¬ Opens "#elseif" ('#' :: ("else".toList ++ next)) after) :
    Opener.ofHead? ("else".toList ++ next) = none := by
  rw [Opener.ofHead?_eq_none_iff]
  rintro opener after ⟨gap, hg, heq⟩
  have hfirst := congrArg List.head? heq
  cases opener with
  | assignment => cases hfirst
  | condition => cases hfirst
  | alternative => exact h after (opens_cons_iff.2 ⟨gap, hg, heq⟩)

/-- No directive with parentheses starts like the end of a chain. -/
theorem ofHead?_end (next : Text) : Opener.ofHead? ("end".toList ++ next) = none := by
  rw [Opener.ofHead?_eq_none_iff]
  rintro opener after ⟨gap, -, heq⟩
  have hfirst := congrArg (List.take 2) heq
  cases opener <;> cases hfirst

/-- What is written down from a character on and is right there is what starts with it. -/
theorem start_of_source {c : Char} {used next : Text} {form : Form} (hs : form.Source (c :: used))
    (hc : form.Canonical (c :: (used ++ next)) next) : start c (used ++ next) = .ok (form, used.length) := by
  cases form with
  | set body => exact start_parenthesized ((source_form .assignment body _).1 hs)
  | cond condition => exact start_parenthesized ((source_form .condition condition _).1 hs)
  | elseCond condition => exact start_parenthesized ((source_form .alternative condition _).1 hs)
  | text t =>
    obtain ⟨-, rfl⟩ := hs
    rcases hc with ⟨hno, hnext⟩ | ⟨heq, hno⟩
    · have hc' : c ≠ '#' := fun h => hno (h ▸ List.mem_cons_self)
      have ht : (used ++ next).takeWhile (· ≠ '#') = used := by
        refine Text.takeWhile_append (fun d hd => ?_) (fun d hd => ?_)
        · have hd' : d ≠ '#' := fun h => hno (h ▸ List.mem_cons_of_mem _ hd)
          exact decide_eq_true hd'
        · simp [hnext d hd]
      unfold start
      rw [if_neg hc']
      simp only [ht]
    · obtain ⟨rfl, rfl⟩ := List.cons.inj heq
      obtain ⟨hhead, helse, hend⟩ := not_startsDirective_iff.1 hno
      unfold start
      simp only [if_true, hhead, helse, hend, Bool.false_eq_true, if_false, List.length_nil]
  | otherwise =>
    have hs' : c :: used = '#' :: "else" := hs
    obtain ⟨rfl, rfl⟩ := List.cons.inj hs'
    have helse : "else".toList.isPrefixOf ("else".toList ++ next) = true :=
      List.isPrefixOf_iff_prefix.2 (List.prefix_append _ _)
    unfold start
    simp only [if_true, ofHead?_else hc, helse]
    rfl
  | finish =>
    have hs' : c :: used = '#' :: "end" := hs
    obtain ⟨rfl, rfl⟩ := List.cons.inj hs'
    have hend : "end".toList.isPrefixOf ("end".toList ++ next) = true :=
      List.isPrefixOf_iff_prefix.2 (List.prefix_append _ _)
    have helse : "else".toList.isPrefixOf ("end".toList ++ next) = false := rfl
    unfold start
    simp only [if_true, ofHead?_end, helse, hend, Bool.false_eq_true, if_false]
    rfl

end Token

end Stencil
