import Stencil.Proofs.Except
import Stencil.Proofs.Numeral
import Stencil.Render.Failure

/-!
# How messages end

A failure of evaluation names its expression at the end of its words (`Failure.label`). The words of a fault do not end like that by
themselves: most end with no quotation mark, and where one ends with a quoted text, what stands before that text is not what stands
before a quoted expression. The two cannot be mixed up, since a quotation mark inside of a quoted text that is one of those around it
stands behind a backslash (`Text.Escaped`). Only an object of the caller's can say anything, and so say that too where its words are
the last ones (`Fault.label_suffix`).
-/

namespace Stencil

namespace Text

variable {q : Char} {s t : Text}

/-! ## Quotation marks -/

/-- Whether a character is one of those that a quoted text is put between. -/
def isQuote (c : Char) : Bool := c = '\'' || c = '"'

/-- No character of a text is a quotation mark. -/
def QuoteFree (t : Text) : Prop := ∀ c ∈ t, isQuote c = false

/-- No character of a text is a quotation mark or a blank. -/
def IsWord (t : Text) : Prop := ∀ c ∈ t, isQuote c = false ∧ c ≠ ' '

/-- A text does not end with a quotation mark. -/
def Unquoted (t : Text) : Prop := ∀ c ∈ t.getLast?, isQuote c = false

instance (t : Text) : Decidable t.QuoteFree := List.decidableBAll _ t

instance (t : Text) : Decidable t.IsWord := List.decidableBAll _ t

instance (t : Text) : Decidable t.Unquoted := Option.decidableForallMem t.getLast?

theorem QuoteFree.append (hs : s.QuoteFree) (ht : t.QuoteFree) : (s ++ t).QuoteFree :=
  fun c hc => (List.mem_append.1 hc).elim (hs c) (ht c)

theorem QuoteFree.of_subset (ht : t.QuoteFree) (h : s ⊆ t) : s.QuoteFree := fun c hc => ht c (h hc)

theorem IsWord.quoteFree (h : t.IsWord) : t.QuoteFree := fun c hc => (h c hc).1

theorem QuoteFree.unquoted (h : t.QuoteFree) : t.Unquoted := fun c hc => h c (List.mem_of_getLast? hc)

theorem Unquoted.behind (h : t.Unquoted) (hne : t ≠ []) (s : Text) : (s ++ t).Unquoted := by
  rw [Unquoted, List.getLast?_append, List.getLast?_eq_some_getLast hne, Option.some_or, ← List.getLast?_eq_some_getLast hne]
  exact h

theorem Unquoted.append (hs : s.Unquoted) (ht : t.Unquoted) : (s ++ t).Unquoted := by
  by_cases hne : t = []
  · rwa [hne, List.append_nil]
  · exact ht.behind hne s

/-- A part without a character lies on one side of that character. -/
theorem infix_of_infix_append_cons {part left right : Text} {c : Char} (hc : c ∉ part) (h : part <:+: left ++ c :: right) :
    part <:+: left ∨ part <:+: right := by
  have hnil : ∀ {t : Text}, t ⊆ part → t <:+ left ++ [c] → t = [] := by
    intro t ht h
    rcases List.suffix_concat_iff.1 h with rfl | ⟨u, rfl, -⟩
    · rfl
    · exact absurd (ht (List.mem_append_right _ List.mem_cons_self)) hc
  rw [List.append_cons, List.infix_append_iff, List.infix_concat_iff] at h
  rcases h with (h | h) | h | ⟨t, u, rfl, ht, hu⟩
  · exact .inl (hnil (List.Subset.refl _) h ▸ List.nil_infix)
  · exact .inl h
  · exact .inr h
  · rw [hnil (List.subset_append_left _ _) ht]
    exact .inr hu.isInfix

/-- A short word between blanks does not stand in a text with a word between quotation marks, unless it stands beside that. -/
theorem IsWord.not_within {word : Text} (h : word.IsWord) (left right : Text) (hleft : ¬" in ".toList <:+: left)
    (hright : ¬" in ".toList <:+: right) : ¬" in ".toList <:+: left ++ ['\''] ++ word ++ '\'' :: right := by
  intro hin
  rcases infix_of_infix_append_cons (by decide) hin with hin | hin
  · rw [List.append_assoc, List.singleton_append] at hin
    rcases infix_of_infix_append_cons (by decide) hin with hin | hin
    · exact hleft hin
    · exact (h ' ' (hin.subset List.mem_cons_self)).2 rfl
  · exact hright hin

/-! ## Quoted texts -/

/-- Wherever the character stands in a text, it stands behind a backslash. -/
def Escaped (q : Char) (t : Text) : Prop := ∀ before after, t = before ++ q :: after → before.getLast? = some '\\'

theorem escaped_of_notMem (h : q ∉ t) : Escaped q t := by
  rintro before after rfl
  exact absurd (List.mem_append_right _ List.mem_cons_self) h

/-- Escaped texts, joined: the second does not start with the character. -/
theorem Escaped.append (hs : Escaped q s) (ht : Escaped q t) : Escaped q (s ++ t) := by
  intro before after heq
  rcases List.append_eq_append_iff.1 heq with ⟨between, rfl, hbetween⟩ | ⟨between, hbefore, hbetween⟩
  · have hlast := ht between after hbetween
    rw [List.getLast?_append, hlast]
    rfl
  · cases between with
    | nil =>
      have hlast := ht [] after hbetween.symm
      cases hlast
    | cons c between =>
      cases hbetween
      exact hs before between hbefore

/-- Texts that are escaped one by one are, joined. -/
theorem escaped_flatMap {α : Type} {f : α → Text} (hf : ∀ a, Escaped q (f a)) (items : List α) :
    Escaped q (items.flatMap f) := by
  induction items with
  | nil => exact escaped_of_notMem List.not_mem_nil
  | cons item items ih => exact (hf item).append ih

/-- Hexadecimal digits are no quotation marks. -/
theorem quoteFree_hexDigits (width n : Nat) : (hexDigits width n).QuoteFree := by
  have hdigit : ∀ d < 16, isQuote d.digitChar = false := by decide
  induction width generalizing n with
  | zero => exact nofun
  | succ width ih =>
    refine (ih (n / 16)).append fun c hc => ?_
    rw [List.mem_singleton.1 hc]
    exact hdigit _ (Nat.mod_lt _ (by decide))

theorem QuoteFree.notMem (h : t.QuoteFree) (hq : isQuote q = true) : q ∉ t := by
  intro hmem
  rw [h q hmem] at hq
  cases hq

/-- A character between quotation marks is a backslash and itself if it is one of them. -/
theorem escaped_quotedChar (hq : isQuote q = true) (c : Char) : Escaped q (quotedChar q c) := by
  have hplain : ∀ {t : Text}, t.QuoteFree → Escaped q t := fun h => escaped_of_notMem (h.notMem hq)
  unfold quotedChar
  split
  · intro before after heq
    cases before with
    | nil =>
      cases heq
      cases hq
    | cons d before =>
      obtain ⟨rfl, heq⟩ := List.cons.inj heq
      cases before with
      | nil => rfl
      | cons d' before => simp at heq
  · rename_i hc
    rw [Bool.or_eq_true, not_or, decide_eq_true_iff, decide_eq_true_iff] at hc
    repeat' split
    · exact hplain (by decide)
    · exact hplain (by decide)
    · exact hplain (by decide)
    · exact escaped_of_notMem fun h => hc.1 (List.mem_singleton.1 h).symm
    · exact hplain (QuoteFree.append (by decide) (quoteFree_hexDigits _ _))
    · exact hplain (QuoteFree.append (by decide) (quoteFree_hexDigits _ _))
    · exact hplain (QuoteFree.append (by decide) (quoteFree_hexDigits _ _))

/-- A quoted text is put between two quotation marks of a kind, and is escaped between them. -/
theorem quoted_eq (t : Text) : ∃ q body, isQuote q = true ∧ Escaped q body ∧ quoted t = q :: (body ++ [q]) := by
  have hq : isQuote (quoteFor t) = true := by
    unfold quoteFor
    split <;> decide
  exact ⟨quoteFor t, _, hq, escaped_flatMap (escaped_quotedChar hq) t, rfl⟩

/-- A quotation mark with an escaped text behind it does not come before another one that stands behind a blank. -/
theorem Escaped.eq_of_prefix {before body before' body' : Text} (h : Escaped q body) (hspace : before'.getLast? = some ' ')
    (heq : before ++ q :: body = before' ++ q :: body') (hlong : before <+: before') : before = before' := by
  obtain ⟨between, rfl⟩ := hlong
  cases between with
  | nil => exact (List.append_nil before).symm
  | cons c between =>
    rw [List.append_assoc, List.cons_append] at heq
    obtain ⟨rfl, hbody⟩ := List.cons.inj (List.append_cancel_left heq)
    have hlast := h between body' hbody
    rw [List.getLast?_append, List.getLast?_cons, hlast] at hspace
    cases hspace

/-- The quotation mark before an escaped text, if it stands behind a blank, can be told from the whole. -/
theorem Escaped.eq_of_append_eq {before body before' body' : Text} (h : Escaped q body) (h' : Escaped q body')
    (hspace : before.getLast? = some ' ') (hspace' : before'.getLast? = some ' ')
    (heq : before ++ q :: body = before' ++ q :: body') : before = before' := by
  rcases List.prefix_or_prefix_of_prefix (List.prefix_append before (q :: body)) ⟨q :: body', heq.symm⟩ with hlong | hlong
  · exact h.eq_of_prefix hspace' heq hlong
  · exact (h'.eq_of_prefix hspace heq.symm hlong).symm

end Text

/-! ## The end of a failure of evaluation -/

namespace Failure

open Text

/-- What stands before the expression at the end of a failure of evaluation. -/
def introduction : Text := " in expression: "

/-- The end of a failure of evaluation. -/
def label (expression : Text) : Text := introduction ++ Text.quoted expression

variable {lead body said : Text} {q : Char}

/-- A failure of evaluation says its fault and then names its expression, unless it is an error that evaluations let pass. -/
theorem message_evaluation [World] {fault : Fault} (h : fault.escape? = none) (expression : Text) :
    (evaluation fault (some expression)).message = fault.message.map (· ++ label expression) := by
  unfold Failure.message evaluationMessage
  simp only [h]
  cases fault.message with
  | none => rfl
  | some said => exact congrArg some (List.append_assoc said introduction (Text.quoted expression))

/-- A text ends with a blank, but not as what stands before an expression does. -/
structure Leads (lead : Text) : Prop where
  blank : lead.getLast? = some ' '
  not_suffix : ¬lead <:+ introduction
  not_suffix_of : ¬introduction <:+ lead

instance (lead : Text) : Decidable (Leads lead) :=
  decidable_of_iff (lead.getLast? = some ' ' ∧ ¬lead <:+ introduction ∧ ¬introduction <:+ lead)
    ⟨fun ⟨h, h', h''⟩ => ⟨h, h', h''⟩, fun ⟨h, h', h''⟩ => ⟨h, h', h''⟩⟩

/-- What ends with no quotation mark does not end with an expression. -/
theorem not_label_suffix_of_unquoted (h : said.Unquoted) (expression : Text) : ¬label expression <:+ said := by
  rintro ⟨front, rfl⟩
  obtain ⟨q, body, hq, -, heq⟩ := quoted_eq expression
  have hlast : (front ++ label expression).getLast? = some q := by
    rw [label, heq, ← List.cons_append, ← List.append_assoc, ← List.append_assoc, List.getLast?_concat]
  rw [h q hlast] at hq
  cases hq

/-- What ends with a quoted text behind other words than those before an expression does not end with an expression. -/
theorem not_label_suffix_of_leads (h : Leads lead) (hbody : Escaped q body) (before expression : Text) :
    ¬label expression <:+ before ++ lead ++ q :: (body ++ [q]) := by
  rintro ⟨front, heq⟩
  obtain ⟨q', body', -, hbody', hquoted⟩ := quoted_eq expression
  rw [label, hquoted, ← List.append_assoc, ← List.cons_append, ← List.cons_append, ← List.append_assoc,
    ← List.append_assoc] at heq
  obtain ⟨heq, hq⟩ := List.append_inj' heq rfl
  cases hq
  have hfront : (front ++ introduction).getLast? = some ' ' := by
    rw [List.getLast?_append]
    rfl
  have hlead : (before ++ lead).getLast? = some ' ' := by
    rw [List.getLast?_append, h.blank]
    rfl
  have hsame := hbody'.eq_of_append_eq hbody hfront hlead heq
  exact (List.suffix_or_suffix_of_suffix (List.suffix_append before lead)
    (hsame ▸ List.suffix_append front introduction)).elim h.not_suffix h.not_suffix_of

/-- What stands behind other words, and ends with an expression together with them, ends with it by itself, but for the first
blank. The label starts with a short word between blanks, and the other words have no such word in them. -/
theorem tail_label_suffix {front shown expression : Text} (hblank : front.getLast? = some ' ') (hfront : ¬" in ".toList <:+: front)
    (h : label expression <:+ front ++ shown) : (label expression).tail <:+ shown := by
  obtain hs | ⟨start, hstart⟩ := List.suffix_or_suffix_of_suffix h (List.suffix_append front shown)
  · exact (List.tail_suffix _).trans hs
  · obtain ⟨before, hbefore⟩ := h
    rw [← hstart, ← List.append_assoc] at hbefore
    obtain rfl := List.append_cancel_right hbefore
    obtain ⟨rest, hlabel⟩ : ∃ rest, start ++ shown = ' ' :: 'i' :: 'n' :: ' ' :: rest :=
      ⟨"expression: ".toList ++ Text.quoted expression, hstart⟩
    -- The start of the label that stands among the other words ends with their blank, so it is that blank or the short word.
    match start, hlabel with
    | [], hlabel => exact hstart ▸ List.tail_suffix _
    | [c], hlabel => exact hstart ▸ List.suffix_refl _
    | [c, d], hlabel =>
      cases hlabel
      simp at hblank
    | [c, d, e], hlabel =>
      cases hlabel
      simp at hblank
    | c :: d :: e :: f :: start, hlabel =>
      cases hlabel
      exact absurd ⟨before, start, List.append_assoc ..⟩ hfront

end Failure

/-! ## How values are shown -/

namespace Text

theorem isQuote_of_isDigit {c : Char} (h : c.isDigit = true) : isQuote c = false := by
  rw [isQuote, Bool.or_eq_false_iff, decide_eq_false_iff_not, decide_eq_false_iff_not]
  constructor <;> rintro rfl <;> cases h

theorem quoteFree_numeral (n : Nat) : (numeral n).QuoteFree :=
  fun _ hc => isQuote_of_isDigit (Nat.isDigit_of_mem_toDigits (by decide) (by decide) hc)

/-- There are no quotation marks in the numerals of integers. -/
theorem quoteFree_integerNumeral (n : Int) : (integerNumeral n).QuoteFree := by
  unfold integerNumeral
  split
  · exact QuoteFree.append (s := ['-']) (by decide) (quoteFree_numeral _)
  · exact quoteFree_numeral _

theorem unquoted_append_numeral (t : Text) (n : Nat) : (t ++ numeral n).Unquoted :=
  (quoteFree_numeral n).unquoted.behind Nat.toDigits_ne_nil t

end Text

namespace Binary64

open Text

/-- There are no quotation marks in a decimal with a point, if there are none in its digits. -/
theorem quoteFree_layout {digits : Text} (h : digits.QuoteFree) (exponent : Int) : (layout digits exponent).QuoteFree := by
  have hzeros : ∀ n, QuoteFree (List.replicate n '0') := by
    intro n c hc
    rw [List.eq_of_mem_replicate hc]
    rfl
  have htake : ∀ n, QuoteFree (digits.take n) := fun n => h.of_subset (List.take_subset n digits)
  have hdrop : ∀ n, QuoteFree (digits.drop n) := fun n => h.of_subset (List.drop_subset n digits)
  unfold layout
  simp only
  split
  · split
    · exact (h.append (hzeros _)).append (by decide)
    · split
      · exact ((htake _).append (by decide)).append (hdrop _)
      · exact (QuoteFree.append (by decide) (hzeros _)).append h
  · refine (((htake 1).append ?_).append ?_).append ?_
    · split
      · decide
      · exact QuoteFree.append (s := ['.']) (by decide) (hdrop 1)
    · split <;> decide
    · split
      · exact QuoteFree.append (s := ['0']) (by decide) (quoteFree_numeral _)
      · exact quoteFree_numeral _

/-- There are no quotation marks in the text of a binary64 number. -/
theorem quoteFree_toText (x : Binary64) : x.toText.QuoteFree := by
  cases x with
  | nan => decide
  | infinite negative => cases negative <;> decide
  | finite negative rank =>
    have hsigned : ∀ magnitude : Text, magnitude.QuoteFree →
        QuoteFree (if negative then '-' :: magnitude else magnitude) := by
      intro magnitude h
      split
      · exact QuoteFree.append (s := ['-']) (by decide) h
      · exact h
    refine hsigned _ ?_
    split
    · exact quoteFree_layout (by decide) 0
    · exact quoteFree_layout (quoteFree_numeral _) _

end Binary64

/-- What ends with a closing parenthesis does not end with a quotation mark. -/
theorem Moment.unquoted_shown (m : Moment) : m.shown.Unquoted := by
  unfold shown
  simp only
  split <;> exact Text.Unquoted.behind (by decide) (by decide) _

/-- A value is shown as a quoted text, or as what does not end with a quotation mark, or is an object that is shown as it says. -/
theorem Value.quoted_or_unquoted [World] {v : Value} {shown : Text} (h : v.shown = .ok shown) :
    (∃ t, shown = Text.quoted t) ∨ shown.Unquoted ∨ ∃ i, v = .host i ∧ World.shown i = .ok shown := by
  cases v with
  | text t =>
    cases h
    exact .inl ⟨t, rfl⟩
  | null =>
    cases h
    exact .inr (.inl (by decide))
  | bool b =>
    cases h
    cases b <;> exact .inr (.inl (by decide))
  | number n =>
    refine .inr (.inl ?_)
    cases n with
    | int n =>
      rw [Value.shown, Obstacle.ofDigits, mapError_ok_iff, writeInteger] at h
      split at h <;> cases h
      exact (Text.quoteFree_integerNumeral n).unquoted
    | float x =>
      cases h
      exact (Binary64.quoteFree_toText x).unquoted
  | list items =>
    obtain ⟨texts, -, h⟩ := bind_ok_iff.1 h
    cases h
    exact .inr (.inl (Text.Unquoted.behind (by decide) (by decide) _))
  | mapping names values =>
    obtain ⟨texts, -, h⟩ := bind_ok_iff.1 h
    cases h
    exact .inr (.inl (Text.Unquoted.behind (by decide) (by decide) _))
  | moment m =>
    cases h
    exact .inr (.inl m.unquoted_shown)
  | host i => exact .inr (.inr ⟨i, rfl, mapError_ok_iff.1 h⟩)
  | library l =>
    cases h
    exact .inr (.inl (Text.Unquoted.behind (t := "])".toList) (by decide) (by decide) _))
  | builtin f =>
    cases h
    exact .inr (.inl (Text.Unquoted.behind (t := ")".toList) (by decide) (by decide) _))

/-! ## The words of faults -/

/-- What is said of an integer with too many digits does not end with a quotation mark. -/
theorem TooManyDigits.unquoted_message (e : TooManyDigits) : e.message.Unquoted :=
  Text.Unquoted.behind (t := "; use sys.set_int_max_str_digits() to increase the limit".toList) (by decide) (by decide) _

/-- What is said of the text of an expression does not end with a quotation mark. -/
theorem ParseError.unquoted_message (e : ParseError) : e.message.Unquoted := by
  cases e with
  | unexpectedCharacter c position => exact Text.unquoted_append_numeral _ position
  | empty => decide
  | unexpectedEnd => decide
  | unexpected text position => exact Text.unquoted_append_numeral _ position
  | unclosed found position => exact Text.unquoted_append_numeral _ position
  | memberName position => exact Text.unquoted_append_numeral _ position
  | tooManyDigits e => exact e.unquoted_message

theorem Number.Fault.unquoted_message (e : Number.Fault) : e.message.Unquoted := by
  cases e with
  | undefined reason => cases reason <;> decide
  | _ => decide

namespace Fault

open Failure

/-- The name or the operator in an expression that a fault tells, if it tells one. -/
def word? : Fault → Option Text
  | unknownName word | noMember _ word | unreadable word _ | operand word _ => some word
  | _ => none

/-- The value that the words of a fault show, if they show one. -/
def subject? : Fault → Option Value
  | unreadable _ v | operand _ v | notNumber _ v | noLeadingInteger v | notConvertible v => some v
  | _ => none

variable {fault : Fault} {said lead : Text}

/-- What ends with a name between single quotation marks, behind other words than those before an expression, does not end with an
expression. -/
theorem not_label_suffix_name {name : Text} (h : name.QuoteFree) (hlead : Leads lead) (before expression : Text) :
    ¬label expression <:+ before ++ lead ++ '\'' :: (name ++ ['\'']) :=
  not_label_suffix_of_leads hlead (Text.escaped_of_notMem (h.notMem rfl)) before expression

variable [World] {v : Value}

/-- What an object of the caller's said at the end of the words of a fault: how it is shown, or the words of its error. -/
inductive SaidByObject (fault : Fault) : Text → Prop
  | shown {i : Nat} {t : Text} : fault.subject? = some (.host i) → World.shown i = .ok t → SaidByObject fault t
  | error {e : ObjectError} : fault.words = .error (.object e) → SaidByObject fault e.message

/-- What shows a value at its end, behind other words than those before an expression, does not end with an expression, unless the
value is an object that does. -/
theorem label_suffix_about (before : Text) {expression : Text} (h : about v (fun shown => before ++ lead ++ shown) = .ok (some said))
    (hlead : Leads lead) (hfront : ¬" in ".toList <:+: before ++ lead) (hsuffix : label expression <:+ said) :
    ∃ i t, v = .host i ∧ World.shown i = .ok t ∧ (label expression).tail <:+ t := by
  obtain ⟨shown, hshown, heq⟩ := map_ok_iff.1 h
  obtain rfl : before ++ lead ++ shown = said := Option.some.inj heq
  have hblank : (before ++ lead).getLast? = some ' ' := by
    rw [List.getLast?_append, hlead.blank]
    rfl
  obtain ⟨t, rfl⟩ | hunquoted | ⟨i, rfl, hi⟩ := Value.quoted_or_unquoted hshown
  · obtain ⟨q, body, -, hbody, hquoted⟩ := Text.quoted_eq t
    rw [hquoted] at hsuffix
    exact absurd hsuffix (not_label_suffix_of_leads hlead hbody before expression)
  · refine absurd hsuffix (not_label_suffix_of_unquoted ?_ expression)
    by_cases hne : shown = []
    · -- There is nothing but the blank before the value.
      subst hne
      intro c hc
      rw [List.append_nil, hblank] at hc
      cases hc
      rfl
    · exact hunquoted.behind hne _
  · exact ⟨i, shown, rfl, hi, tail_label_suffix hblank hfront hsuffix⟩

/-- The words of a fault, where they can be found, do not end with an expression, unless an object says so. -/
theorem label_suffix_words {expression : Text} (hword : ∀ word ∈ fault.word?, word.IsWord) (h : fault.words = .ok (some said))
    (hsuffix : label expression <:+ said) : ∃ i t, fault.subject? = some (.host i) ∧ World.shown i = .ok t ∧
      (label expression).tail <:+ t := by
  have hunquoted : ¬said.Unquoted := fun h => not_label_suffix_of_unquoted h expression hsuffix
  have hsubject : ∀ {v}, fault.subject? = some v →
      (∃ i t, v = .host i ∧ World.shown i = .ok t ∧ (label expression).tail <:+ t) →
      ∃ i t, fault.subject? = some (.host i) ∧ World.shown i = .ok t ∧ (label expression).tail <:+ t := by
    rintro v hv ⟨i, t, rfl, ht⟩
    exact ⟨i, t, hv, ht⟩
  cases fault with
  | malformed e =>
    have hsaid : e.message = said := by cases e <;> cases h <;> rfl
    exact absurd (hsaid ▸ e.unquoted_message) hunquoted
  | unknownName name =>
    cases h
    have hlead : Leads "Unknown name " := by decide
    exact absurd hsuffix (not_label_suffix_name (hword name rfl).quoteFree hlead [] expression)
  | noMember library key =>
    cases h
    have hlead : Leads " has no member " := by decide
    have heq : library.name ++ " has no member '" ++ key ++ "'" =
        library.name ++ " has no member ".toList ++ '\'' :: (key ++ ['\'']) := by cases library <;> rfl
    rw [heq] at hsuffix
    exact absurd hsuffix (not_label_suffix_name (hword key rfl).quoteFree hlead library.name expression)
  | unreadable key target =>
    have hfront := (hword key rfl).not_within "Cannot read property " " of " (by decide +kernel) (by decide +kernel)
    exact hsubject rfl (label_suffix_about _ h (by decide) hfront hsuffix)
  | operand symbol value =>
    have hfront := (hword symbol rfl).not_within "Unsupported operand for " ": " (by decide +kernel) (by decide +kernel)
    exact hsubject rfl (label_suffix_about _ h (by decide) hfront hsuffix)
  | notCallable callee =>
    obtain ⟨t, -, heq⟩ := map_ok_iff.1 h
    cases heq
    exact absurd (Text.Unquoted.behind (by decide) (by decide) _) hunquoted
  | notNumber f value =>
    exact hsubject rfl (label_suffix_about _ h (by decide) (by cases f <;> decide +kernel) hsuffix)
  | noArguments f =>
    cases h
    exact absurd (Text.Unquoted.behind (by decide) (by decide) _) hunquoted
  | argumentCount f => cases h
  | noLeadingInteger value =>
    exact hsubject rfl (label_suffix_about [] h (by decide) (by decide +kernel) hsuffix)
  | notConvertible value =>
    exact hsubject rfl (label_suffix_about [] h (by decide) (by decide +kernel) hsuffix)
  | arithmetic e =>
    cases h
    exact absurd e.unquoted_message hunquoted
  | tooManyDigits e => cases h
  | object e => cases h
  | notFinite x =>
    cases h
    exact absurd (Text.Unquoted.append (by decide) (Binary64.quoteFree_toText x).unquoted) hunquoted

/-- What is said of a fault does not end with an expression, unless an object of the caller's said so: then its own words end with
the expression, but for the blank in front of that. -/
theorem label_suffix {expression : Text} (hword : ∀ word ∈ fault.word?, word.IsWord) (h : fault.message = some said)
    (hsuffix : label expression <:+ said) : ∃ t, fault.SaidByObject t ∧ (label expression).tail <:+ t := by
  unfold message at h
  split at h
  · rename_i result hwords
    subst h
    obtain ⟨i, t, hsubject, ht, htail⟩ := label_suffix_words hword hwords hsuffix
    exact ⟨t, .shown hsubject ht, htail⟩
  · rename_i e hwords
    cases h
    cases e with
    | tooManyDigits e => exact absurd hsuffix (not_label_suffix_of_unquoted e.unquoted_message expression)
    | object e => exact ⟨_, .error hwords, (List.tail_suffix _).trans hsuffix⟩

/-- A fault has no words of its own exactly if it is a wrong count of arguments. -/
theorem message_eq_none_iff : fault.message = none ↔ ∃ f, fault = .argumentCount f := by
  have hwords : fault.message = none ↔ fault.words = .ok none := by
    unfold message
    cases fault.words <;> simp
  have habout : ∀ {v say}, about v say ≠ .ok none := by
    intro v say h
    obtain ⟨shown, -, hnone⟩ := map_ok_iff.1 h
    cases hnone
  rw [hwords]
  cases fault with
  | unreadable | operand | notNumber | noLeadingInteger | notConvertible => exact iff_of_false habout nofun
  | argumentCount f => exact iff_of_true rfl ⟨f, rfl⟩
  | notCallable v =>
    refine iff_of_false (fun h => ?_) nofun
    obtain ⟨t, -, hnone⟩ := map_ok_iff.1 h
    cases hnone
  | malformed e => exact iff_of_false (by cases e <;> nofun) nofun
  | _ => exact iff_of_false nofun nofun

end Fault

end Stencil
