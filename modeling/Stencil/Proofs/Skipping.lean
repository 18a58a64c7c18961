import Stencil.Proofs.Activity
import Stencil.Proofs.Matching

/-!
# Skipped tokens

While a machine is inactive, tokens that stay inside of its innermost chain (`Token.Inside`) leave no trace, whatever they hold:
nothing in them is looked at, and every chain that they open is closed again before a branch of it could be taken
(`feed_inside`). So what stands in a branch that is not taken can be exchanged for anything else of that kind (`skipped_inert`).
-/

namespace Stencil

/-- Tokens that are handled inside of a chain in which `depth` more chains are open: they close those and the ones that they open,
and no others, and further branches of the chain itself stand among them only if it is decided. -/
structure Token.Inside (depth : Nat) (decided : Bool) (tokens : List Token) : Prop where
  /-- Nowhere is the chain itself closed. -/
  closed_le : ∀ before, before <+: tokens → closed before ≤ opened before + depth
  /-- No chain inside of it is left open. -/
  closed_eq : closed tokens = opened tokens + depth
  /-- A further branch that belongs to no chain inside of it belongs to the chain, which is then decided. -/
  decided_of_branch : ∀ before token after, tokens = before ++ token :: after →
    (token.continuation? = some .elseCond ∨ token.continuation? = some .otherwise) →
    closed before = opened before + depth → decided = true

namespace Token.Inside

variable {depth next : Nat} {decided : Bool} {token : Token} {tokens : List Token}

/-- The tokens after the first one, with as many chains open as there are after it. -/
theorem tail (h : Inside depth decided (token :: tokens))
    (hnext : next + (if token.closes then 1 else 0) = depth + if token.opens then 1 else 0) :
    Inside next decided tokens where
  closed_le before hp := by
    have hle := h.closed_le (token :: before) ((List.prefix_cons_inj token).2 hp)
    rw [closed_cons, opened_cons] at hle
    omega
  closed_eq := by
    have heq := h.closed_eq
    rw [closed_cons, opened_cons] at heq
    omega
  decided_of_branch before t after heq ht hcount := by
    refine h.decided_of_branch (token :: before) t after (congrArg _ heq) ht ?_
    rw [closed_cons, opened_cons]
    omega

/-- A chain is closed only if there is one inside. -/
theorem pos_of_closes (h : Inside depth decided (token :: tokens)) (hc : token.closes = true) : 0 < depth := by
  have hle := h.closed_le [token] ⟨tokens, rfl⟩
  have hopens : token.opens = false := by
    rw [← Bool.not_eq_true]
    intro ho
    rw [closes_of_opens ho] at hc
    cases hc
  simp only [closed_cons, opened_cons, hc, hopens, if_true, Bool.false_eq_true, if_false] at hle
  simp only [closed, opened, List.countP_nil] at hle
  omega

end Token.Inside

/-! ## Frames that further branches leave as they are -/

/-- Nothing is active in a chain, and nothing will be. -/
structure Frame.Settled (frame : Frame) : Prop where
  /-- The current branch is inactive. -/
  inactive : frame.active = false
  /-- No other branch will be taken. -/
  decided : frame.decided = true

/-- A chain that is opened where nothing is active. -/
theorem Frame.settled_passed (o : Nat) : Frame.Settled ⟨false, false, false, o⟩ := ⟨rfl, rfl⟩

theorem Frame.Settled.passed_eq {frame : Frame} (h : frame.Settled) : { frame with active := false } = frame := by
  obtain ⟨parentActive, active, branchTaken, o⟩ := frame
  obtain rfl : active = false := h.inactive
  rfl

namespace Machine

variable {m : Machine}

/-- Whether no branch of the innermost chain will be taken any more. -/
def decided (m : Machine) : Bool := m.frames.head?.any (·.decided)

theorem active_of_settled {frame : Frame} {below : List Frame} (hf : m.frames = frame :: below) (h : frame.Settled) :
    m.active = false := by
  rw [active, hf]
  simp only [h.inactive, Bool.and_false]

/-- A further branch of a settled chain leaves the machine as it is. -/
theorem step_branch_of_settled [World] {frame : Frame} {below : List Frame} (hf : m.frames = frame :: below) (h : frame.Settled)
    {token : Token} (ht : token.continuation? = some .elseCond ∨ token.continuation? = some .otherwise) :
    m.step token = .ok m := by
  have hsame : { m with frames := { frame with active := false } :: below } = m := by
    rw [h.passed_eq, ← hf]
  obtain ⟨o, form⟩ := token
  cases form with
  | elseCond condition => exact (step_elseCond_of_decided hf h.decided).trans (congrArg Except.ok hsame)
  | otherwise => exact (step_otherwise_of_decided hf h.decided).trans (congrArg Except.ok hsame)
  | text | set | cond | finish => rcases ht with ht | ht <;> cases ht

/-! ## Passing over tokens -/

/-- The machine with more chains open on top of its own. -/
def under (m : Machine) (above : List Frame) : Machine := { m with frames := above ++ m.frames }

/-- A machine that is inactive, and of which the innermost chain is not, or is settled once it is decided, stays as it is when it
handles tokens inside of the chain. On top of its own there may be settled chains, which the tokens close. By induction on the
tokens. -/
theorem feed_inside [World] (ha : m.active = false) (hm : m.decided = true → ∃ frame below, m.frames = frame :: below ∧ frame.Settled)
    (above : List Frame) (habove : ∀ frame ∈ above, frame.Settled) {tokens : List Token}
    (h : Token.Inside above.length m.decided tokens) : (m.under above).feed tokens = (m, none) := by
  induction tokens generalizing above with
  | nil =>
    have hlength : 0 = 0 + above.length := h.closed_eq
    obtain rfl : above = [] := List.eq_nil_of_length_eq_zero (by omega)
    rfl
  | cons token tokens ih =>
    have hinactive : (m.under above).active = false := by
      cases above with
      | nil => exact ha
      | cons frame above => exact active_of_settled rfl (habove frame List.mem_cons_self)
    -- A further branch belongs to the innermost of the chains on top or, if there is none, to that of the machine.
    have hbranch : token.continuation? = some .elseCond ∨ token.continuation? = some .otherwise →
        (m.under above).step token = .ok (m.under above) := by
      intro ht
      cases above with
      | nil =>
        obtain ⟨frame, below, hf, hsettled⟩ := hm (h.decided_of_branch [] token tokens rfl ht rfl)
        exact step_branch_of_settled hf hsettled ht
      | cons frame above => exact step_branch_of_settled rfl (habove frame List.mem_cons_self) ht
    obtain ⟨o, form⟩ := token
    cases form with
    | text t =>
      rw [feed, step_text_of_inactive hinactive]
      exact ih above habove (h.tail rfl)
    | set body =>
      rw [feed, step_set_of_inactive hinactive]
      exact ih above habove (h.tail rfl)
    | cond condition =>
      rw [feed, step_cond_of_inactive hinactive]
      refine ih (⟨false, false, false, o⟩ :: above) (fun frame hframe => ?_) (h.tail rfl)
      rcases List.mem_cons.1 hframe with rfl | hframe
      · exact Frame.settled_passed o
      · exact habove frame hframe
    | elseCond condition =>
      rw [feed, hbranch (.inl rfl)]
      exact ih above habove (h.tail rfl)
    | otherwise =>
      rw [feed, hbranch (.inr rfl)]
      exact ih above habove (h.tail rfl)
    | finish =>
      cases above with
      | nil => exact absurd (h.pos_of_closes rfl) (Nat.lt_irrefl 0)
      | cons frame above =>
        rw [feed, step_finish rfl]
        exact ih above (fun frame hframe => habove frame (List.mem_cons_of_mem _ hframe)) (h.tail rfl)

/-- In a machine that is inactive and whose frames agree with each other, no branch of the innermost chain is active. -/
theorem settled_of_decided (hcached : Frame.AllCached m.frames) (ha : m.active = false) (hd : m.decided = true) :
    ∃ frame below, m.frames = frame :: below ∧ frame.Settled := by
  cases hf : m.frames with
  | nil =>
    rw [decided, hf] at hd
    cases hd
  | cons frame below =>
    rw [decided, hf] at hd
    refine ⟨frame, below, rfl, ?_, hd⟩
    rw [hf] at hcached
    rw [active, hf] at ha
    -- An active branch has active surroundings, so the machine would be active.
    rw [← Bool.not_eq_true]
    intro hactive
    have hparent := hcached.1.parent_of_taken (hcached.1.taken_of_active hactive)
    simp only [hparent, hactive, Bool.and_self, Bool.true_eq_false] at ha

/-- A machine that is inactive and whose frames agree with each other stays as it is when it handles tokens inside of its
innermost chain. -/
theorem feed_skipped [World] (hcached : Frame.AllCached m.frames) (ha : m.active = false) {tokens : List Token}
    (h : Token.Inside 0 m.decided tokens) : m.feed tokens = (m, none) :=
  feed_inside ha (settled_of_decided hcached ha) [] nofun h

/-- What is skipped leaves no trace. In every state that a machine without open chains reaches by runs, also failing ones, and by
assignments: if it is inactive, it handles tokens inside of its innermost chain without a failure, whatever the bodies, conditions
and texts in them are, and is the same machine afterwards. So in a run that comes to such tokens while the machine is inactive,
they can be exchanged for others of that kind: the run leaves the same machine and gives the same output or failure. -/
theorem skipped_inert [World] (hm : m.frames = []) (events : List Event) :
    ((m.after events).active = false → ∀ tokens, Token.Inside 0 (m.after events).decided tokens →
      (m.after events).feed tokens = (m.after events, none)) ∧
    ∀ front m', (m.after events).feed front = (m', none) → m'.active = false →
      ∀ inside inside' rest, Token.Inside 0 m'.decided inside → Token.Inside 0 m'.decided inside' →
        (m.after events).run (front ++ (inside ++ rest)) = (m.after events).run (front ++ (inside' ++ rest)) := by
  have hcached := allCached_after hm events
  refine ⟨fun ha tokens h => feed_skipped hcached ha h, fun front m' hfront ha inside inside' rest h h' => ?_⟩
  have hcached' : Frame.AllCached m'.frames := by
    have hkept := feed_keeps (fun m => Frame.AllCached m.frames) allCached_step front hcached
    rwa [hfront] at hkept
  have hfeed : (m.after events).feed (front ++ (inside ++ rest)) = (m.after events).feed (front ++ (inside' ++ rest)) := by
    rw [feed_append hfront, feed_append hfront, feed_append (feed_skipped hcached' ha h),
      feed_append (feed_skipped hcached' ha h')]
  unfold run
  rw [hfeed]

open scoped World in
/-- Behind a branch that is taken, whether a run failed there or is still going on: assignments and conditions that spell nothing,
in a chain of their own and in further branches of the same chain, are passed over like nothing at all. -/
theorem skipped_inert_branch_taken :
    let m := start Context.builtins []
    let front : List Token := [⟨0, .cond "true"⟩, ⟨9, .otherwise⟩]
    let m' : Machine := { m with frames := [⟨true, false, true, 0⟩] }
    let inside : List Token := [⟨14, .set "= #"⟩, ⟨18, .cond "1 +"⟩, ⟨26, .elseCond ")"⟩, ⟨35, .finish⟩, ⟨39, .elseCond "(("⟩]
    (m.frames = [] ∧ (m.after [.run front]).active = false ∧ Token.Inside 0 (m.after [.run front]).decided inside ∧
        (m.after [.run front]).feed inside = (m.after [.run front], none)) ∧
      (m.feed front = (m', none) ∧ m'.active = false ∧ Token.Inside 0 m'.decided inside ∧ Token.Inside 0 m'.decided []) ∧
      m.run (front ++ (inside ++ [⟨49, .finish⟩])) = m.run (front ++ ([] ++ [⟨49, .finish⟩])) := by
  intro m front m' inside
  have hholds : m.holds "true" = .ok true := holds_keyword (by decide : ("true".toList, Literal.bool true) ∈ Expr.keywords)
  have hcond : m.step ⟨0, .cond "true"⟩ = .ok { m with frames := [⟨true, true, true, 0⟩] } := step_enter rfl hholds
  have hfront : m.feed front = (m', none) := by
    simp only [front, feed, hcond]
    rfl
  have hafter : m.after [.run front] = m' := by
    show (m.run front).1 = m'
    rw [run_fst, hfront]
  have hinside : Token.Inside 0 m'.decided inside :=
    ⟨Token.excess_le_iff.1 (by decide), by decide, fun _ _ _ _ _ _ => rfl⟩
  have hnothing : Token.Inside 0 m'.decided [] := ⟨Token.excess_le_iff.1 (by decide), by decide, fun _ _ _ _ _ _ => rfl⟩
  have hkept := (skipped_inert (m := m) rfl [.run front]).1
  have hexchanged := (skipped_inert (m := m) rfl []).2 front m' hfront rfl inside [] [⟨49, .finish⟩] hinside hnothing
  rw [hafter] at hkept ⊢
  exact ⟨⟨rfl, rfl, hinside, hkept rfl inside hinside⟩, ⟨hfront, rfl, hinside, hnothing⟩, hexchanged⟩

end Machine

end Stencil
