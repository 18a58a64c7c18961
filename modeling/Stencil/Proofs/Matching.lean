import Stencil.Proofs.Block.Nesting
import Stencil.Proofs.Run

/-!
# Directives and the chains that they belong to

Whether the directives of a list of tokens match can be told by counting (`Token.Nested`), and so can which chains a list leaves
open (`Token.unclosed`). In every state the frames of the machine are the chains left open so far, whatever its variables are and
whatever is active (`offsets_feed`). So a run fails for its structure exactly where the counts fail first (`run_structural`).
-/

namespace Stencil

namespace Token

/-- Whether a token opens a chain. -/
def opens (token : Token) : Bool := token.form matches .cond _

/-- Whether a token closes a chain. -/
def closes (token : Token) : Bool := token.form matches .finish

/-- How many chains are opened. -/
def opened (tokens : List Token) : Nat := tokens.countP opens

/-- How many chains are closed. -/
def closed (tokens : List Token) : Nat := tokens.countP closes

/-- No first part of the tokens closes more chains than it opens. -/
def ClosesOwn (tokens : List Token) : Prop := ∀ before, before <+: tokens → closed before ≤ opened before

/-- Every directive that continues a chain stands where one is open. -/
def NoStray (tokens : List Token) : Prop :=
  ∀ before token after, tokens = before ++ token :: after → token.continuation? ≠ none → closed before < opened before

/-- The directives match, by counting. -/
structure Nested (tokens : List Token) : Prop where
  /-- Nowhere have more chains been closed than opened. -/
  closesOwn : ClosesOwn tokens
  /-- Every further branch stands in an open chain. -/
  branch_inside : ∀ before token after, tokens = before ++ token :: after →
    (token.continuation? = some .elseCond ∨ token.continuation? = some .otherwise) → closed before < opened before
  /-- As many chains are opened as are closed. -/
  opened_eq_closed : opened tokens = closed tokens

variable {tokens : List Token} {n : Nat}

/-! ## Counting open chains -/

theorem opened_cons (token : Token) (tokens : List Token) :
    opened (token :: tokens) = opened tokens + if token.opens then 1 else 0 :=
  List.countP_cons

theorem closed_cons (token : Token) (tokens : List Token) :
    closed (token :: tokens) = closed tokens + if token.closes then 1 else 0 :=
  List.countP_cons

/-- A token that opens a chain does not close one. -/
theorem closes_of_opens {token : Token} (h : token.opens = true) : token.closes = false := by
  obtain ⟨o, form⟩ := token
  cases form with
  | cond condition => rfl
  | _ => cases h

/-- A token adds to the number of open chains what it opens and takes away what it closes. -/
theorem depthAfter_add_closes {depth depth' : Nat} {token : Token} (h : depthAfter? depth token = some depth') :
    depth' + (if token.closes then 1 else 0) = depth + if token.opens then 1 else 0 := by
  obtain ⟨o, form⟩ := token
  cases form <;> cases depth <;> cases h <;> rfl

/-- The chains that are open after some tokens are those open before and those opened, less those closed. -/
theorem depth_add_closed {depth depth' : Nat} (h : tokens.foldlM depthAfter? depth = some depth') :
    depth' + closed tokens = depth + opened tokens := by
  induction tokens generalizing depth with
  | nil =>
    cases h
    rfl
  | cons token tokens ih =>
    rw [List.foldlM_cons, Option.bind_eq_bind, Option.bind_eq_some_iff] at h
    obtain ⟨next, hnext, h⟩ := h
    have hfirst := depthAfter_add_closes hnext
    have hrest := ih h
    rw [closed_cons, opened_cons]
    omega

/-- How many chains are open after a token is known unless it continues a chain where none is open. -/
theorem depthAfter_isSome_iff {depth : Nat} {token : Token} :
    (∃ depth', depthAfter? depth token = some depth') ↔ (token.continuation? ≠ none → 0 < depth) := by
  obtain ⟨o, form⟩ := token
  cases form <;> cases depth <;> simp [depthAfter?, continuation?]

/-- How many chains are open in the end is known exactly if every directive that continues a chain finds one open, as the counts
before it tell. -/
theorem depth_isSome_iff {depth : Nat} :
    (∃ depth', tokens.foldlM depthAfter? depth = some depth') ↔
      ∀ before token after, tokens = before ++ token :: after → token.continuation? ≠ none →
        closed before < opened before + depth := by
  constructor
  · rintro ⟨depth', h⟩ before token after rfl hc
    rw [List.foldlM_append, Option.bind_eq_bind, Option.bind_eq_some_iff] at h
    obtain ⟨between, hbefore, h⟩ := h
    rw [List.foldlM_cons, Option.bind_eq_bind, Option.bind_eq_some_iff] at h
    obtain ⟨next, hnext, -⟩ := h
    have hpos := depthAfter_isSome_iff.1 ⟨next, hnext⟩ hc
    have hcount := depth_add_closed hbefore
    omega
  · intro h
    induction tokens generalizing depth with
    | nil => exact ⟨depth, rfl⟩
    | cons token tokens ih =>
      obtain ⟨next, hnext⟩ := depthAfter_isSome_iff.2 fun hc => by
        simpa only [closed, opened, List.countP_nil, Nat.zero_add] using h [] token tokens rfl hc
      have hfirst := depthAfter_add_closes hnext
      have hrest : ∃ depth', tokens.foldlM depthAfter? next = some depth' := ih fun before t after heq hc => by
        have hlt := h (token :: before) t after (congrArg _ heq) hc
        rw [closed_cons, opened_cons] at hlt
        omega
      rw [List.foldlM_cons, hnext]
      exact hrest

/-- No directive is stray exactly if it is known how many chains are open in the end. -/
theorem noStray_iff : NoStray tokens ↔ ∃ depth, tokens.foldlM depthAfter? 0 = some depth := by
  rw [depth_isSome_iff]
  rfl

/-- Where no directive is stray, no first part closes more chains than it opens. -/
theorem NoStray.closesOwn (h : NoStray tokens) : ClosesOwn tokens := by
  rintro before ⟨after, rfl⟩
  obtain ⟨depth, hd⟩ := noStray_iff.1 h
  rw [List.foldlM_append, Option.bind_eq_bind, Option.bind_eq_some_iff] at hd
  obtain ⟨between, hbefore, -⟩ := hd
  have hcount := depth_add_closed hbefore
  omega

/-- Where the directives match, none is stray: one that closes a chain would else close one more than is opened. -/
theorem Nested.noStray (h : Nested tokens) : NoStray tokens := by
  rintro before token after rfl hc
  obtain ⟨o, form⟩ := token
  cases form with
  | text | set | cond => exact absurd rfl hc
  | elseCond condition => exact h.branch_inside before _ after rfl (.inl rfl)
  | otherwise => exact h.branch_inside before _ after rfl (.inr rfl)
  | finish =>
    have hle := h.closesOwn (before ++ [⟨o, .finish⟩]) ⟨after, by rw [List.append_assoc]; rfl⟩
    simp only [closed, opened, List.countP_append] at hle ⊢
    exact hle

/-- The directives match, by counting, exactly if the tokens are well nested. -/
theorem nested_iff_wellNested : Nested tokens ↔ WellNested tokens := by
  constructor
  · intro h
    obtain ⟨depth, hd⟩ := noStray_iff.1 h.noStray
    have hcount := depth_add_closed hd
    rw [h.opened_eq_closed] at hcount
    obtain rfl : depth = 0 := by omega
    exact hd
  · intro h
    have hs : NoStray tokens := noStray_iff.2 ⟨0, h⟩
    have hcount := depth_add_closed h
    refine ⟨hs.closesOwn, fun before token after heq hc => hs before token after heq ?_, by omega⟩
    rcases hc with hc | hc <;> rw [hc] <;> nofun

instance (tokens : List Token) : Decidable (Nested tokens) := decidable_of_iff _ nested_iff_wellNested.symm

/-! ## Chains left open -/

/-- By how much the tokens close more chains than they open, at the place where that is most. -/
def excess : List Token → Nat
  | [] => 0
  | token :: rest => if token.opens then excess rest - 1 else if token.closes then excess rest + 1 else excess rest

/-- The excess is the least number of chains that have to be open before, for every first part to close open ones only. -/
theorem excess_le_iff : excess tokens ≤ n ↔ ∀ before, before <+: tokens → closed before ≤ opened before + n := by
  induction tokens generalizing n with
  | nil => simp [excess, closed]
  | cons token tokens ih =>
    have hcons : (∀ before, before <+: token :: tokens → closed before ≤ opened before + n) ↔
        ∀ before, before <+: tokens → closed (token :: before) ≤ opened (token :: before) + n := by
      constructor
      · exact fun h before hp => h _ ((List.prefix_cons_inj token).2 hp)
      · intro h before hp
        obtain rfl | ⟨before, rfl, hrest⟩ := List.prefix_cons_iff.1 hp
        · exact Nat.zero_le _
        · exact h before hrest
    simp only [hcons, closed_cons, opened_cons, excess]
    cases ho : token.opens with
    | true =>
      rw [if_pos rfl, closes_of_opens ho, Nat.sub_le_iff_le_add, ih]
      exact forall₂_congr fun before _ => by simp only [Bool.false_eq_true, if_false, if_true]; omega
    | false =>
      cases hc : token.closes with
      | false => simpa using ih
      | true =>
        cases n with
        | zero => exact ⟨nofun, fun h => absurd (h [] List.nil_prefix) (by simp [closed, opened])⟩
        | succ n =>
          rw [if_neg Bool.false_ne_true, if_pos rfl, Nat.add_le_add_iff_right, ih]
          exact forall₂_congr fun before _ => by simp only [Bool.false_eq_true, if_false, if_true]; omega

/-- Nothing is closed in excess exactly if no first part closes more chains than it opens. -/
theorem excess_eq_zero_iff : excess tokens = 0 ↔ ClosesOwn tokens := by
  rw [← Nat.le_zero, excess_le_iff]
  rfl

instance (tokens : List Token) : Decidable (ClosesOwn tokens) := decidable_of_iff _ excess_eq_zero_iff

/-- The offsets of the chains that are opened and not closed, in order: a chain stays open if what follows it closes only
chains that it opens itself. -/
def unclosed : List Token → List Nat
  | [] => []
  | token :: rest => if token.opens ∧ ClosesOwn rest then token.offset :: unclosed rest else unclosed rest

end Token

namespace Machine

variable {m m' : Machine}

/-! ## Steps -/

/-- The offsets of the open chains, the innermost first. -/
def chains (m : Machine) : List Nat := m.frames.map (·.offset)

section

variable [World]

/-- A step opens the chain that its token opens, on top of the others, or closes the innermost one, or leaves them. -/
theorem chains_step {token : Token} (hs : m.Steps token m') :
    m'.chains = if token.opens then token.offset :: m.chains else if token.closes then m.chains.tail else m.chains := by
  cases hs with
  | write | passText | passSet | enter | passCond => rfl
  | assign _ ha => exact congrArg (List.map (·.offset)) (assign_frames ha)
  | tryBranch hf | passBranch hf | takeOtherwise hf | passOtherwise hf | leave hf =>
    unfold chains
    rw [hf]
    rfl

/-- A step leaves as many chains open as its token says. -/
theorem depth_step {token : Token} (hs : m.Steps token m') :
    Token.depthAfter? m.frames.length token = some m'.frames.length := by
  cases hs with
  | write | passText | passSet | enter | passCond => rfl
  | assign _ ha => exact congrArg (fun frames => some frames.length) (assign_frames ha).symm
  | tryBranch hf | passBranch hf | takeOtherwise hf | passOtherwise hf | leave hf =>
    rw [hf]
    rfl

/-- A step leaves the text that offsets are placed in. -/
theorem template_step {token : Token} (hs : m.Steps token m') : m'.template = m.template := by
  cases hs with
  | assign _ ha =>
    obtain ⟨name, expression, -, ⟨-, rfl⟩ | ⟨-, value, stored, -, -, rfl⟩⟩ := assign_cases ha <;> rfl
  | _ => rfl

/-- A token that fails for the structure is a directive that continues a chain where none is open. -/
theorem unmatched_of_fails {token : Token} {e : Failure} (h : m.Fails token e) (he : e.kind? = some .structural) :
    m.frames = [] ∧ ∃ directive, token.continuation? = some directive ∧
      e = .unmatched directive (.ofOffset m.template token.offset) := by
  cases h with
  | unmatched hf hc => exact ⟨hf, _, hc, rfl⟩
  | assign | enter | tryBranch => cases Failure.eq_evaluation_of_kind? he
  | _ => cases he

/-! ## Runs -/

/-- After tokens are handled, the open chains are those that they leave open, on top of those before that they do not close. -/
theorem chains_feed {tokens : List Token} (h : m.feed tokens = (m', none)) :
    m'.chains = (Token.unclosed tokens).reverse ++ m.chains.drop (Token.excess tokens) := by
  induction tokens generalizing m with
  | nil =>
    cases h
    rfl
  | cons token tokens ih =>
    simp only [feed] at h
    split at h
    · cases h
    · rename_i next hs
      rw [ih h, chains_step (steps_of_step hs), Token.unclosed, Token.excess]
      cases ho : token.opens with
      | true =>
        -- The chain stays open exactly if the tokens after it do not reach down to it.
        by_cases hclose : Token.ClosesOwn tokens
        · have h0 := Token.excess_eq_zero_iff.2 hclose
          simp [h0, hclose]
        · obtain ⟨n, hn⟩ := Nat.exists_eq_succ_of_ne_zero fun h0 => hclose (Token.excess_eq_zero_iff.1 h0)
          simp [hn, hclose]
      | false =>
        cases hc : token.closes with
        | false => simp
        | true => simp

/-- After tokens are handled, as many chains are open as they say. -/
theorem depth_feed {tokens : List Token} (h : m.feed tokens = (m', none)) :
    tokens.foldlM Token.depthAfter? m.frames.length = some m'.frames.length := by
  induction tokens generalizing m with
  | nil =>
    cases h
    rfl
  | cons token tokens ih =>
    simp only [feed] at h
    split at h
    · cases h
    · rename_i next hs
      rw [List.foldlM_cons, depth_step (steps_of_step hs)]
      exact ih h

theorem template_feed {tokens : List Token} {failure : Option Failure} (h : m.feed tokens = (m', failure)) :
    m'.template = m.template := by
  have hkept := feed_keeps (fun n => n.template = m.template) (fun hs ht => (template_step hs).trans ht) tokens rfl
  rwa [h] at hkept

/-- After tokens are handled without a failure, a run on them gives the output exactly if their directives match, and else fails
with the place of the innermost chain that they leave open. -/
theorem run_handled {tokens : List Token} (hm : m.frames = []) (h : m.feed tokens = (m', none)) :
    Token.NoStray tokens ∧ ((∃ output, (m.run tokens).2 = .ok output) ↔ Token.Nested tokens) ∧
      (¬Token.Nested tokens → ∃ outer offset, Token.unclosed tokens = outer ++ [offset] ∧
        (m.run tokens).2 = .error (.unclosed (.ofOffset m.template offset))) := by
  have hdepth := depth_feed h
  have hchains := chains_feed h
  rw [hm] at hdepth
  rw [chains, chains, hm, List.map_nil, List.drop_nil, List.append_nil] at hchains
  refine ⟨Token.noStray_iff.2 ⟨_, hdepth⟩, ?_⟩
  rw [Token.nested_iff_wellNested, Token.WellNested, ← List.length_nil, hdepth, run_of_handled h, finish, template_feed h]
  cases hframes : m'.frames with
  | nil => simp
  | cons frame below =>
    refine ⟨by simp, fun _ => ⟨(below.map (·.offset)).reverse, frame.offset, ?_, rfl⟩⟩
    rw [← List.reverse_inj, ← hchains, hframes]
    simp

/-- A run that fails for its structure part way fails in a directive that continues a chain where none is open, and the first one
that does. -/
theorem run_unmatched {tokens : List Token} {e : Failure} (hm : m.frames = []) (h : m.feed tokens = (m', some e))
    (he : e.kind? = some .structural) :
    ∃ before token after directive, tokens = before ++ token :: after ∧ Token.NoStray before ∧
      Token.closed before = Token.opened before ∧ token.continuation? = some directive ∧
      (m.run tokens).2 = .error (.unmatched directive (.ofOffset m.template token.offset)) := by
  obtain ⟨before, token, after, rfl, hbefore, hs⟩ := feed_eq_error_iff.1 h
  obtain ⟨hframes, directive, hc, rfl⟩ := unmatched_of_fails (fails_of_step hs) he
  have hdepth := depth_feed hbefore
  rw [hm, hframes] at hdepth
  have hcount := Token.depth_add_closed hdepth
  rw [List.length_nil, Nat.zero_add, Nat.zero_add] at hcount
  refine ⟨before, token, after, directive, rfl, Token.noStray_iff.2 ⟨_, hdepth⟩, hcount, hc, ?_⟩
  rw [run_of_failed h, template_feed hbefore]

/-- From a machine without open chains, the frames are always those of the chains that the tokens so far leave open, in order and
each with the offset of its first directive, whatever the variables are and whatever is active. A run in which nothing fails for
another reason gives an output exactly if the directives match. If they do not, it fails in the first directive that continues a
chain where none is open, and names it and its place; or, if there is none, at the end, with the place of the innermost chain
that is left open. -/
theorem run_structural (hm : m.frames = []) :
    (∀ tokens m', m.feed tokens = (m', none) → m'.frames.map (·.offset) = (Token.unclosed tokens).reverse) ∧
    ∀ tokens, (∀ e, (m.feed tokens).2 = some e → e.kind? = some .structural) →
      ((∃ output, (m.run tokens).2 = .ok output) ↔ Token.Nested tokens) ∧
      (¬Token.Nested tokens →
        (∃ before token after directive, tokens = before ++ token :: after ∧ Token.NoStray before ∧
          Token.closed before = Token.opened before ∧ token.continuation? = some directive ∧
          (m.run tokens).2 = .error (.unmatched directive (.ofOffset m.template token.offset))) ∨
        (Token.NoStray tokens ∧ ∃ outer offset, Token.unclosed tokens = outer ++ [offset] ∧
          (m.run tokens).2 = .error (.unclosed (.ofOffset m.template offset)))) := by
  refine ⟨fun tokens m' h => ?_, fun tokens hkind => ?_⟩
  · simpa only [chains, hm, List.map_nil, List.drop_nil, List.append_nil] using chains_feed h
  · cases h : m.feed tokens with
    | mk m' failure =>
      cases failure with
      | none =>
        obtain ⟨hs, hiff, hend⟩ := run_handled hm h
        exact ⟨hiff, fun hn => .inr ⟨hs, hend hn⟩⟩
      | some e =>
        obtain ⟨before, token, after, directive, rfl, hs, hcount, hc, hrun⟩ := run_unmatched hm h (hkind e (by rw [h]))
        have hn : ¬Token.Nested (before ++ token :: after) := fun hn =>
          absurd (hn.noStray before token after rfl (by rw [hc]; nofun)) (by omega)
        exact ⟨by simp [hrun, hn], fun _ => .inl ⟨before, token, after, directive, rfl, hs, hcount, hc, hrun⟩⟩

end

open scoped World in
/-- A chain whose first branch is passed over, with another chain in it: what a run gives when the chain is left open, and when
one directive too many closes it. -/
theorem run_structural_passed_branch :
    let m := start Context.builtins []
    let m' : Machine := { m with frames := [⟨true, true, true, 0⟩] }
    let tokens : List Token := [⟨0, .cond "false"⟩, ⟨10, .cond "x"⟩, ⟨16, .finish⟩, ⟨20, .otherwise⟩]
    let stray : List Token := tokens ++ [⟨25, .finish⟩, ⟨29, .finish⟩]
    m.frames = [] ∧ (m.feed tokens = (m', none) ∧ m'.frames.map (·.offset) = (Token.unclosed tokens).reverse) ∧
      ((m.run tokens).2 = .error (.unclosed (.ofOffset [] 0)) ∧ ¬Token.Nested tokens) ∧
      ((∀ e, (m.feed stray).2 = some e → e.kind? = some .structural) ∧
        (m.run stray).2 = .error (.unmatched .finish (.ofOffset [] 29)) ∧ ¬Token.Nested stray) := by
  intro m m' tokens stray
  obtain ⟨hframes, hrun⟩ := run_structural (m := m) rfl
  have hholds : m.holds "false" = .ok false := holds_keyword (by decide : ("false".toList, Literal.bool false) ∈ Expr.keywords)
  have hcond : m.step ⟨0, .cond "false"⟩ = .ok { m with frames := [⟨true, false, false, 0⟩] } := step_enter rfl hholds
  have hfeed : m.feed tokens = (m', none) := by
    simp only [tokens, feed, hcond]
    rfl
  have hend : (m.run tokens).2 = .error (.unclosed (.ofOffset [] 0)) := by
    rw [run_of_handled hfeed]
    rfl
  have hstray : m.feed stray = (m, some (.unmatched .finish (.ofOffset [] 29))) := by
    rw [feed_append hfeed]
    rfl
  have hstop : (m.run stray).2 = .error (.unmatched .finish (.ofOffset [] 29)) := by rw [run_of_failed hstray]
  have hkind : ∀ e, (m.feed stray).2 = some e → e.kind? = some .structural := by
    rw [hstray]
    rintro e ⟨⟩
    rfl
  have hopen : ¬Token.Nested tokens := by
    rw [← (hrun tokens (by simp [hfeed])).1, hend]
    simp
  have hmany : ¬Token.Nested stray := by
    rw [← (hrun stray hkind).1, hstop]
    simp
  exact ⟨rfl, ⟨hfeed, hframes tokens m' hfeed⟩, ⟨hend, hopen⟩, hkind, hstop, hmany⟩

end Machine

end Stencil
