import Stencil.Template.Token

/-!
# Partitions of a template

What it means that tokens partition a template: each is written down, character by character, between its own offset and the
next one, and none could be read in another way where it stands. Nothing here mentions how a template is scanned.
-/

namespace Stencil

/-! ## Pieces of a template -/

/-- Parentheses match: no prefix closes more of them than it opens, and the whole closes as many. -/
def Balanced (t : Text) : Prop := (∀ p : Text, p <+: t → p.count ')' ≤ p.count '(') ∧ t.count ')' = t.count '('

/-- A text is a sign, any spaces and tabs, an opening parenthesis and what comes after it. -/
def Opens (sign t after : Text) : Prop :=
  ∃ gap : Text, (∀ c ∈ gap, c = ' ' ∨ c = '\t') ∧ t = sign ++ (gap ++ '(' :: after)

/-- A directive starts a text. -/
def StartsDirective (t : Text) : Prop :=
  (∃ after, Opens "#set" t after) ∨ (∃ after, Opens "#if" t after) ∨ (∃ after, Opens "#elseif" t after) ∨
    "#else".toList <+: t ∨ "#end".toList <+: t

namespace Token

/-- A piece of a template is a sign, any spaces and tabs, and a content with matching parentheses between two more. -/
def Parenthesized (sign content piece : Text) : Prop := Opens sign piece (content ++ [')']) ∧ Balanced content

/-- A piece of a template writes down a form. -/
def Form.Source : Form → Text → Prop
  | .text t, piece => t ≠ [] ∧ piece = t
  | .set body, piece => Parenthesized "#set" body piece
  | .cond condition, piece => Parenthesized "#if" condition piece
  | .elseCond condition, piece => Parenthesized "#elseif" condition piece
  | .otherwise, piece => piece = "#else"
  | .finish, piece => piece = "#end"

/-- A form is the right one where the template goes on with `here`, if what comes after it is `next`. A span of text goes up to
the next `#` or to the end, or it is a `#` that starts no directive; and a branch without a condition is not the start of one
with a condition. -/
def Form.Canonical (form : Form) (here next : Text) : Prop :=
  match form with
  | .text t => ('#' ∉ t ∧ ∀ c ∈ next.head?, c = '#') ∨ (t = ['#'] ∧ ¬ StartsDirective here)
  | .otherwise => ∀ after, ¬ Opens "#elseif" here after
  | .set _ | .cond _ | .elseCond _ | .finish => True

/-- A token stands in a template between its own offset and another. -/
def Fits (template : Text) (token : Token) (stop : Nat) : Prop :=
  token.form.Source (template.extract token.offset stop) ∧
    token.form.Canonical (template.drop token.offset) (template.drop stop)

/-- The offset at which tokens go on or, if there are none left, the template ends. -/
def nextOffset (template : Text) : List Token → Nat
  | [] => template.length
  | token :: _ => token.offset

/-- Tokens partition what a template holds from an offset on. -/
structure Partition (template : Text) (offset : Nat) (tokens : List Token) : Prop where
  /-- They start there; without any, there is nothing left. -/
  starts : nextOffset template tokens = offset
  /-- Each starts after the one before it. -/
  increases : tokens.Pairwise fun a b => a.offset < b.offset
  /-- Each stands between its own offset and the next. -/
  fits : ∀ before token after, tokens = before ++ token :: after → token.Fits template (nextOffset template after)

/-! ## One token after another -/

/-- A form is written down by at least one character. -/
theorem Form.Source.ne_nil {form : Form} {piece : Text} (h : form.Source piece) : piece ≠ [] := by
  have hp : ∀ {sign content}, Parenthesized sign content piece → piece ≠ [] := by
    rintro sign content ⟨⟨gap, -, rfl⟩, -⟩
    simp
  cases form with
  | text t => exact h.2 ▸ h.1
  | set body => exact hp h
  | cond condition => exact hp h
  | elseCond condition => exact hp h
  | otherwise => exact h ▸ List.cons_ne_nil _ _
  | finish => exact h ▸ List.cons_ne_nil _ _

/-- A token takes up some of the template. -/
theorem Fits.lt {template : Text} {token : Token} {stop : Nat} (h : token.Fits template stop) :
    token.offset < stop ∧ token.offset < template.length := by
  have hp := List.length_pos_iff.2 h.1.ne_nil
  rw [List.extract_eq_take_drop, List.length_take, List.length_drop] at hp
  omega

/-- The rest of a partition goes from the next offset on. -/
theorem Partition.tail {template : Text} {offset : Nat} {token : Token} {tokens : List Token}
    (h : Partition template offset (token :: tokens)) : Partition template (nextOffset template tokens) tokens where
  starts := rfl
  increases := h.increases.of_cons
  fits := by
    rintro before t after rfl
    exact h.fits (token :: before) t after rfl

/-- A token before a partition of what comes after it. -/
theorem Partition.cons {template : Text} {token : Token} {stop : Nat} {tokens : List Token}
    (ht : token.Fits template stop) (h : Partition template stop tokens) :
    Partition template token.offset (token :: tokens) where
  starts := rfl
  increases := by
    have hlt : token.offset < nextOffset template tokens := by
      rw [h.starts]
      exact ht.lt.1
    refine List.pairwise_cons.2 ⟨fun t hm => ?_, h.increases⟩
    cases tokens with
    | nil => cases hm
    | cons first tokens =>
      rcases List.mem_cons.1 hm with rfl | hm
      · exact hlt
      · exact Nat.lt_trans hlt (List.rel_of_pairwise_cons h.increases hm)
  fits := by
    intro before t after heq
    cases before with
    | nil =>
      obtain ⟨rfl, rfl⟩ := List.cons.inj heq
      rw [h.starts]
      exact ht
    | cons _ before => exact h.fits before t after (List.cons.inj heq).2

/-- A partition starts inside of the template or at its end. -/
theorem Partition.le {template : Text} {offset : Nat} {tokens : List Token} (h : Partition template offset tokens) :
    offset ≤ template.length := by
  cases tokens with
  | nil => exact h.starts ▸ Nat.le_refl _
  | cons token tokens =>
    rw [← h.starts]
    exact Nat.le_of_lt (h.fits [] token tokens rfl).lt.2

/-- At the end of a template there is nothing to partition. -/
theorem partition_length_iff {template : Text} {tokens : List Token} :
    Partition template template.length tokens ↔ tokens = [] := by
  constructor
  · intro h
    cases tokens with
    | nil => rfl
    | cons token tokens =>
      have hlt := (h.fits [] token tokens rfl).lt.2
      have hs : token.offset = template.length := h.starts
      omega
  · rintro rfl
    refine ⟨rfl, .nil, fun before token after h => ?_⟩
    exact absurd h.symm (List.append_ne_nil_of_right_ne_nil _ (List.cons_ne_nil _ _))

/-- What the start of a partition is: a token that fits, up to the partition of the rest. -/
theorem partition_cons_iff {template : Text} {offset : Nat} {token : Token} {tokens : List Token} :
    Partition template offset (token :: tokens) ↔
      token.offset = offset ∧ ∃ stop, token.Fits template stop ∧ Partition template stop tokens := by
  constructor
  · intro h
    exact ⟨h.starts, _, h.fits [] token tokens rfl, h.tail⟩
  · rintro ⟨rfl, stop, ht, h⟩
    exact .cons ht h

end Token

end Stencil
