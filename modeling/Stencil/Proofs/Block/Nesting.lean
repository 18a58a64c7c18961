import Stencil.Proofs.Block.Basic

/-!
# Well-nested tokens

A list of tokens is well nested if no directive of a chain stands outside of every chain and every chain is closed. The
well-nested lists are exactly those that write down a block (`wellNested_iff`), and each writes down one block only
(`tokens_injective`).
-/

namespace Stencil

namespace Token

/-- How many chains are open after a token, from the count before it: none if it continues a chain where none is open. -/
def depthAfter? (depth : Nat) (token : Token) : Option Nat :=
  match token.form, depth with
  | .text _, depth | .set _, depth => some depth
  | .cond _, depth => some (depth + 1)
  | .elseCond _, depth + 1 | .otherwise, depth + 1 => some (depth + 1)
  | .finish, depth + 1 => some depth
  | .elseCond _, 0 | .otherwise, 0 | .finish, 0 => none

/-- Every directive of a chain stands in an open chain, and no chain is open at the end. -/
def WellNested (tokens : List Token) : Prop := tokens.foldlM depthAfter? 0 = some 0

instance (tokens : List Token) : Decidable (WellNested tokens) := inferInstanceAs (Decidable (_ = _))

/-- Whether a token belongs to a chain that is open before it. -/
def continues (token : Token) : Bool :=
  match token.form with
  | .elseCond _ | .otherwise | .finish => true
  | .text _ | .set _ | .cond _ => false

end Token

open Token

/-! ## A block is well nested -/

mutual

/-- The tokens of a block leave as many chains open as there were. -/
theorem depth_block (depth : Nat) : (block : Block) → block.tokens.foldlM depthAfter? depth = some depth
  | .nil => rfl
  | .text _ _ after => depth_block depth after
  | .set _ _ after => depth_block depth after
  | .chain o condition body others after => by
    have ho : depthAfter? depth ⟨o, .cond condition⟩ = some (depth + 1) := rfl
    rw [Block.tokens, List.foldlM_cons, ho, Option.bind_eq_bind, Option.bind_some, List.foldlM_append,
      depth_block (depth + 1) body, Option.bind_eq_bind, Option.bind_some, List.foldlM_append,
      depth_branches depth others, Option.bind_eq_bind, Option.bind_some, depth_block depth after]

/-- The tokens of the further branches of a chain close it. -/
theorem depth_branches (depth : Nat) :
    (others : Branches) → others.tokens.foldlM depthAfter? (depth + 1) = some depth
  | .finish _ => rfl
  | .elseCond o condition body others => by
    have ho : depthAfter? (depth + 1) ⟨o, .elseCond condition⟩ = some (depth + 1) := rfl
    rw [Branches.tokens, List.foldlM_cons, ho, Option.bind_eq_bind, Option.bind_some, List.foldlM_append,
      depth_block (depth + 1) body, Option.bind_eq_bind, Option.bind_some, depth_branches depth others]
  | .otherwise o body others => by
    have ho : depthAfter? (depth + 1) ⟨o, .otherwise⟩ = some (depth + 1) := rfl
    rw [Branches.tokens, List.foldlM_cons, ho, Option.bind_eq_bind, Option.bind_some, List.foldlM_append,
      depth_block (depth + 1) body, Option.bind_eq_bind, Option.bind_some, depth_branches depth others]

end

/-! ## Well-nested tokens are those of a block -/

/-- Tokens that start with a block, after which every chain is still closed in the end, and what is left of them: nothing, if
no chain is open, or a directive that continues one and what follows it. -/
def StartsBlock (depth : Nat) (tokens : List Token) : Prop :=
  ∃ (block : Block) (rest : List Token), tokens = block.tokens ++ rest ∧ rest.foldlM depthAfter? depth = some 0 ∧
    ((rest = [] ∧ depth = 0) ∨ ∃ token after, rest = token :: after ∧ token.continues = true)

/-- Tokens that continue a chain close it, and in the end every other that is open. -/
def ClosesChain (depth : Nat) (tokens : List Token) : Prop :=
  ∃ (others : Branches) (rest : List Token), tokens = others.tokens ++ rest ∧ rest.foldlM depthAfter? depth = some 0

/-- A block inside a chain is followed by a directive that continues the chain, and so by further branches that close it. -/
theorem StartsBlock.closesChain {depth : Nat} {tokens : List Token} (h : StartsBlock (depth + 1) tokens)
    (hclose : ∀ rest : List Token, rest.length ≤ tokens.length → rest.foldlM depthAfter? (depth + 1) = some 0 →
      (∃ token after, rest = token :: after ∧ token.continues = true) → ClosesChain depth rest) :
    ∃ (body : Block) (others : Branches) (rest : List Token), tokens = body.tokens ++ (others.tokens ++ rest) ∧
      rest.foldlM depthAfter? depth = some 0 := by
  obtain ⟨body, rest, rfl, hd, ⟨-, h0⟩ | hc⟩ := h
  · cases h0
  · obtain ⟨others, rest', rfl, hd'⟩ := hclose rest (by simp) hd hc
    exact ⟨body, others, rest', rfl, hd'⟩

/-- Tokens that close every chain start with a block, and those that continue a chain close it: both by induction on how many
tokens there are, since a chain is closed before what comes after it is read. -/
theorem startsBlock_and_closesChain (n : Nat) : ∀ tokens : List Token, tokens.length < n →
    (∀ depth, tokens.foldlM depthAfter? depth = some 0 → StartsBlock depth tokens) ∧
    (∀ depth, tokens.foldlM depthAfter? (depth + 1) = some 0 →
      (∃ token after, tokens = token :: after ∧ token.continues = true) → ClosesChain depth tokens) := by
  induction n with
  | zero => exact fun _ hn => absurd hn (Nat.not_lt_zero _)
  | succ n ih =>
    -- What follows a directive inside a chain is shorter, so it is a block and the rest of the chain.
    have hbody : ∀ (after : List Token) (depth : Nat), after.length < n →
        after.foldlM depthAfter? (depth + 1) = some 0 →
        ∃ (body : Block) (others : Branches) (rest : List Token), after = body.tokens ++ (others.tokens ++ rest) ∧
          rest.foldlM depthAfter? depth = some 0 := by
      intro after depth hn h
      exact ((ih after hn).1 _ h).closesChain fun rest hr hd hc => (ih rest (by omega)).2 depth hd hc
    intro tokens hn
    constructor
    · intro depth h
      cases tokens with
      | nil =>
        obtain rfl : depth = 0 := Option.some.inj h
        exact ⟨.nil, [], rfl, rfl, .inl ⟨rfl, rfl⟩⟩
      | cons token after =>
        obtain ⟨o, form⟩ := token
        rw [List.length_cons] at hn
        rw [List.foldlM_cons] at h
        cases form with
        | text t =>
          obtain ⟨block, rest, rfl, hr⟩ := (ih after (by omega)).1 depth h
          exact ⟨.text o t block, rest, rfl, hr⟩
        | set body =>
          obtain ⟨block, rest, rfl, hr⟩ := (ih after (by omega)).1 depth h
          exact ⟨.set o body block, rest, rfl, hr⟩
        | cond condition =>
          obtain ⟨body, others, rest, rfl, hd⟩ := hbody after depth (by omega) h
          simp only [List.length_append] at hn
          obtain ⟨block, rest', rfl, hr⟩ := (ih rest (by omega)).1 depth hd
          refine ⟨.chain o condition body others block, rest', ?_, hr⟩
          simp only [Block.tokens, List.cons_append, List.append_assoc]
        | elseCond condition => exact ⟨.nil, _, rfl, h, .inr ⟨_, _, rfl, rfl⟩⟩
        | otherwise => exact ⟨.nil, _, rfl, h, .inr ⟨_, _, rfl, rfl⟩⟩
        | finish => exact ⟨.nil, _, rfl, h, .inr ⟨_, _, rfl, rfl⟩⟩
    · rintro depth h ⟨⟨o, form⟩, after, rfl, hc⟩
      rw [List.length_cons] at hn
      rw [List.foldlM_cons] at h
      cases form with
      | text t => cases hc
      | set body => cases hc
      | cond condition => cases hc
      | elseCond condition =>
        obtain ⟨body, others, rest, rfl, hd⟩ := hbody after depth (by omega) h
        refine ⟨.elseCond o condition body others, rest, ?_, hd⟩
        simp only [Branches.tokens, List.cons_append, List.append_assoc]
      | otherwise =>
        obtain ⟨body, others, rest, rfl, hd⟩ := hbody after depth (by omega) h
        refine ⟨.otherwise o body others, rest, ?_, hd⟩
        simp only [Branches.tokens, List.cons_append, List.append_assoc]
      | finish => exact ⟨.finish o, after, rfl, h⟩

/-- The well-nested lists of tokens are those of the blocks. -/
theorem wellNested_iff (tokens : List Token) : WellNested tokens ↔ ∃ block : Block, block.tokens = tokens := by
  constructor
  · intro h
    obtain ⟨block, rest, rfl, hd, ⟨rfl, -⟩ | ⟨⟨o, form⟩, after, rfl, hc⟩⟩ :=
      (startsBlock_and_closesChain _ tokens (Nat.lt_succ_self _)).1 0 h
    · exact ⟨block, (List.append_nil _).symm⟩
    · -- A directive that continues a chain cannot stand where none is open.
      rw [List.foldlM_cons] at hd
      cases form with
      | text t => cases hc
      | set body => cases hc
      | cond condition => cases hc
      | elseCond condition => cases hd
      | otherwise => cases hd
      | finish => cases hd
  · rintro ⟨block, rfl⟩
    exact depth_block 0 block

/-! ## One block only -/

/-- The tokens of the further branches of a chain start with one that continues it. -/
theorem Branches.tokens_eq_cons (others : Branches) :
    ∃ token after, others.tokens = token :: after ∧ token.continues = true := by
  cases others with
  | finish => exact ⟨_, _, rfl, rfl⟩
  | elseCond => exact ⟨_, _, rfl, rfl⟩
  | otherwise => exact ⟨_, _, rfl, rfl⟩

/-- What may follow a block: nothing, or a token that continues a chain. -/
def FollowsBlock (rest : List Token) : Prop := ∀ token after, rest = token :: after → token.continues = true

/-- The further branches of a chain may follow a block. -/
theorem followsBlock_branches (others : Branches) (rest : List Token) : FollowsBlock (others.tokens ++ rest) := by
  intro token after h
  obtain ⟨token', after', ho, hc⟩ := others.tokens_eq_cons
  rw [ho, List.cons_append, List.cons.injEq] at h
  exact h.1 ▸ hc

mutual

/-- Two blocks whose tokens start one list, each up to where a chain continues or to the end, are the same. -/
theorem tokens_inj_block {rest rest' : List Token} (hr : FollowsBlock rest) (hr' : FollowsBlock rest') :
    (a b : Block) → a.tokens ++ rest = b.tokens ++ rest' → a = b ∧ rest = rest'
  | .nil, .nil, h => ⟨rfl, h⟩
  | .nil, .text .., h | .nil, .set .., h | .nil, .chain .., h => by cases hr _ _ h
  | .text .., .nil, h | .set .., .nil, h | .chain .., .nil, h => by cases hr' _ _ h.symm
  | .text o t after, .text o' t' after', h => by
    simp only [Block.tokens, List.cons_append, List.cons.injEq, Token.mk.injEq, Form.text.injEq] at h
    obtain ⟨⟨rfl, rfl⟩, h⟩ := h
    obtain ⟨rfl, hrest⟩ := tokens_inj_block hr hr' after after' h
    exact ⟨rfl, hrest⟩
  | .set o body after, .set o' body' after', h => by
    simp only [Block.tokens, List.cons_append, List.cons.injEq, Token.mk.injEq, Form.set.injEq] at h
    obtain ⟨⟨rfl, rfl⟩, h⟩ := h
    obtain ⟨rfl, hrest⟩ := tokens_inj_block hr hr' after after' h
    exact ⟨rfl, hrest⟩
  | .chain o condition body others after, .chain o' condition' body' others' after', h => by
    simp only [Block.tokens, List.cons_append, List.append_assoc, List.cons.injEq, Token.mk.injEq,
      Form.cond.injEq] at h
    obtain ⟨⟨rfl, rfl⟩, h⟩ := h
    obtain ⟨rfl, hothers⟩ := tokens_inj_block (followsBlock_branches _ _) (followsBlock_branches _ _) body body' h
    obtain ⟨rfl, hafter⟩ := tokens_inj_branches others others' hothers
    obtain ⟨rfl, hrest⟩ := tokens_inj_block hr hr' after after' hafter
    exact ⟨rfl, hrest⟩
  | .text .., .set .., h | .text .., .chain .., h | .set .., .text .., h | .set .., .chain .., h
  | .chain .., .text .., h | .chain .., .set .., h => by
    simp [Block.tokens] at h

/-- Two lists of further branches whose tokens start one list are the same. -/
theorem tokens_inj_branches {rest rest' : List Token} :
    (a b : Branches) → a.tokens ++ rest = b.tokens ++ rest' → a = b ∧ rest = rest'
  | .finish o, .finish o', h => by
    simp only [Branches.tokens, List.cons_append, List.nil_append, List.cons.injEq, Token.mk.injEq, and_true] at h
    exact ⟨congrArg _ h.1, h.2⟩
  | .elseCond o condition body others, .elseCond o' condition' body' others', h => by
    simp only [Branches.tokens, List.cons_append, List.append_assoc, List.cons.injEq, Token.mk.injEq,
      Form.elseCond.injEq] at h
    obtain ⟨⟨rfl, rfl⟩, h⟩ := h
    obtain ⟨rfl, hothers⟩ := tokens_inj_block (followsBlock_branches _ _) (followsBlock_branches _ _) body body' h
    obtain ⟨rfl, hrest⟩ := tokens_inj_branches others others' hothers
    exact ⟨rfl, hrest⟩
  | .otherwise o body others, .otherwise o' body' others', h => by
    simp only [Branches.tokens, List.cons_append, List.append_assoc, List.cons.injEq, Token.mk.injEq, and_true] at h
    obtain ⟨rfl, h⟩ := h
    obtain ⟨rfl, hothers⟩ := tokens_inj_block (followsBlock_branches _ _) (followsBlock_branches _ _) body body' h
    obtain ⟨rfl, hrest⟩ := tokens_inj_branches others others' hothers
    exact ⟨rfl, hrest⟩
  | .finish .., .elseCond .., h | .finish .., .otherwise .., h | .elseCond .., .finish .., h
  | .elseCond .., .otherwise .., h | .otherwise .., .finish .., h | .otherwise .., .elseCond .., h => by
    simp [Branches.tokens] at h

end

/-- A list of tokens writes down one block only. -/
theorem tokens_injective {a b : Block} (h : a.tokens = b.tokens) : a = b :=
  (@tokens_inj_block [] [] nofun nofun a b (by rw [h])).1

end Stencil
