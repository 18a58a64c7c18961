import Stencil.Proofs.Block.Nesting
import Stencil.Proofs.Run

/-!
# The machine executes blocks

The machine handles tokens one by one and never sees a block. Run on the tokens of a block, it ends where the execution of the
block ends (`endsAs_block`): while it is inactive it passes over any block and leaves nothing behind (`feed_inactive`), and
between the directives of a chain its innermost frame says whether the chain is still to be decided. Since well-nested tokens
are those of one block, this says what a run on them gives (`run_eq_exec`).
-/

namespace Stencil.Machine

/-- What is seen of a machine: all but its open chains, with the fragments of output put together. -/
def page (m : Machine) : Page := ⟨m.template, m.context, m.output.flatten, m.log⟩

/-- Run on the tokens, the machine ends where the execution ended; with the given frames, if it did not fail. -/
def EndsAs [World] (m : Machine) (tokens : List Token) (frames : List Frame) (ending : Ending) : Prop :=
  ∃ m', m.feed tokens = (m', ending.failure) ∧ m'.page = ending.page ∧ (ending.failure = none → m'.frames = frames)

/-- Whether a machine is active hangs on its frames alone. -/
theorem active_congr {m m' : Machine} (h : m'.frames = m.frames) : m'.active = m.active := by
  unfold active
  rw [h]

/-- The innermost frame decides whether a machine is active. -/
theorem active_cons {m : Machine} {frame : Frame} {below : List Frame} (hf : m.frames = frame :: below) :
    m.active = (frame.parentActive && frame.active) := by
  unfold active
  rw [hf]

/-! ## Single tokens -/

section

variable [World]

theorem holds_eq (m : Machine) (condition : Text) : m.holds condition = m.page.holds condition := by
  unfold holds eval Page.holds
  simp only [page]
  cases evaluate m.context condition <;> rfl

/-- An active machine writes what is written on its page. -/
theorem endsAs_text {m : Machine} (ha : m.active = true) (o : Nat) (t : Text) :
    m.EndsAs [⟨o, .text t⟩] m.frames (m.page.attempt (m.page.write t)) := by
  have hs : m.step ⟨o, .text t⟩ = m.interpolate t >>= fun written => .ok { m with output := m.output ++ [written] } := by
    simp only [step, ha, if_true]
    rfl
  unfold Page.write
  simp only [interpolate, page] at hs ⊢
  cases h : Stencil.interpolate m.context t with
  | ok written =>
    rw [h] at hs
    exact ⟨_, feed_singleton hs, by simp [page, Page.attempt], fun _ => rfl⟩
  | error e =>
    rw [h] at hs
    exact ⟨m, feed_singleton_error hs, rfl, fun _ => rfl⟩

/-- An active machine makes the assignment that is made on its page. -/
theorem endsAs_set {m : Machine} (ha : m.active = true) (o : Nat) (body : Text) :
    m.EndsAs [⟨o, .set body⟩] m.frames (m.page.attempt (m.page.assign o body)) := by
  have hs : m.step ⟨o, .set body⟩ = m.assign body o := by simp only [step, ha, if_true]
  unfold assign at hs
  unfold Page.assign
  cases hb : Assignment.ofBody? body with
  | none =>
    rw [hb] at hs
    exact ⟨m, feed_singleton_error hs, rfl, fun _ => rfl⟩
  | some a =>
    obtain ⟨name, expression⟩ := a
    simp only [hb] at hs ⊢
    by_cases hn : name = Context.reservedName
    · rw [if_pos hn] at hs ⊢
      exact ⟨_, feed_singleton hs, rfl, fun _ => rfl⟩
    · rw [if_neg hn] at hs ⊢
      simp only [eval] at hs
      simp only [page]
      cases he : evaluate m.context expression with
      | error fault =>
        rw [he] at hs
        exact ⟨m, feed_singleton_error hs, rfl, fun _ => rfl⟩
      | ok value =>
        rw [he] at hs
        replace hs : m.step ⟨o, .set body⟩ =
            value.stored.mapError (fun fault => .evaluation fault (some expression)) >>= fun stored =>
              .ok { m with context := m.context.assign name stored } := hs
        simp only [bind, Except.bind]
        cases hv : value.stored with
        | error fault =>
          rw [hv] at hs
          exact ⟨m, feed_singleton_error hs, rfl, fun _ => rfl⟩
        | ok stored =>
          rw [hv] at hs
          exact ⟨_, feed_singleton hs, rfl, fun _ => rfl⟩

/-! ## One thing after another -/

/-- A machine that runs on one list of tokens and then on another ends where one execution and then the other ends. -/
theorem EndsAs.append {m : Machine} {a b : List Token} {frames frames' : List Frame} {ending : Ending}
    {next : Page → Ending} (h : m.EndsAs a frames ending)
    (hnext : ∀ m' : Machine, m'.frames = frames → m'.EndsAs b frames' (next m'.page)) :
    m.EndsAs (a ++ b) frames' (ending.andThen next) := by
  obtain ⟨m', hf, hp, hm⟩ := h
  unfold Ending.andThen
  cases he : ending.failure with
  | none =>
    rw [he] at hf
    obtain ⟨m'', hf', hp', hm''⟩ := hnext m' (hm he)
    rw [hp] at hf' hp' hm''
    exact ⟨m'', (feed_append hf b).trans hf', hp', hm''⟩
  | some e =>
    rw [he] at hf
    refine ⟨m', ?_, hp, fun hn => ?_⟩
    · rw [feed_append_error hf b, he]
    · rw [he] at hn
      cases hn

/-- A machine that handles a token and then runs on others. -/
theorem EndsAs.cons {m m' : Machine} {token : Token} {tokens : List Token} {frames : List Frame} {ending : Ending}
    (hs : m.step token = .ok m') (h : m'.EndsAs tokens frames ending) : m.EndsAs (token :: tokens) frames ending := by
  obtain ⟨m'', hf, h⟩ := h
  refine ⟨m'', ?_, h⟩
  rw [feed, hs]
  exact hf

theorem endsAs_error {m : Machine} {token : Token} {e : Failure} (hs : m.step token = .error e) (tokens : List Token)
    (frames : List Frame) : m.EndsAs (token :: tokens) frames ⟨m.page, some e⟩ := by
  refine ⟨m, ?_, rfl, nofun⟩
  simp only [feed, hs]

/-! ## Passing over -/

mutual

/-- An inactive machine passes over a block and stays as it is. -/
theorem feed_inactive {m : Machine} (ha : m.active = false) : (block : Block) → m.feed block.tokens = (m, none)
  | .nil => rfl
  | .text o t after => by
    rw [Block.tokens, feed, step_text_of_inactive ha]
    exact feed_inactive ha after
  | .set o body after => by
    rw [Block.tokens, feed, step_set_of_inactive ha]
    exact feed_inactive ha after
  | .chain o condition body others after => by
    rw [Block.tokens, feed, step_cond_of_inactive ha]
    simp only
    rw [feed_append (feed_inactive rfl body) _, feed_append (feed_decided rfl rfl others) _]
    exact feed_inactive ha after

/-- A machine whose innermost chain is decided passes over the further branches of the chain and closes it. -/
theorem feed_decided {m : Machine} {frame : Frame} {below : List Frame} (hf : m.frames = frame :: below)
    (hd : frame.decided = true) : (others : Branches) → m.feed others.tokens = ({ m with frames := below }, none)
  | .finish o => by
    rw [Branches.tokens]
    exact feed_singleton (step_finish hf)
  | .elseCond o condition body others => by
    have ha : active { m with frames := { frame with active := false } :: below } = false :=
      (active_cons rfl).trans (Bool.and_false _)
    have hd' : Frame.decided { frame with active := false } = true := hd
    rw [Branches.tokens, feed, step_elseCond_of_decided hf hd]
    simp only
    rw [feed_append (feed_inactive ha body) _]
    exact feed_decided rfl hd' others
  | .otherwise o body others => by
    have ha : active { m with frames := { frame with active := false } :: below } = false :=
      (active_cons rfl).trans (Bool.and_false _)
    have hd' : Frame.decided { frame with active := false } = true := hd
    rw [Branches.tokens, feed, step_otherwise_of_decided hf hd]
    simp only
    rw [feed_append (feed_inactive ha body) _]
    exact feed_decided rfl hd' others

end

/-! ## Executing -/

/-- A branch that has been taken: once its block is executed, the further branches are passed over and the chain is closed. -/
theorem EndsAs.taken {m : Machine} {tokens : List Token} {frame : Frame} {below : List Frame} {ending : Ending}
    (h : m.EndsAs tokens (frame :: below) ending) (ht : frame.branchTaken = true) (others : Branches) :
    m.EndsAs (tokens ++ others.tokens) below ending := by
  have hd : frame.decided = true := by rw [Frame.decided, ht, Bool.or_true]
  obtain ⟨m', hf, hp, hm⟩ := h
  cases he : ending.failure with
  | none =>
    rw [he] at hf
    refine ⟨{ m' with frames := below }, ?_, hp, fun _ => rfl⟩
    rw [feed_append hf, feed_decided (hm he) hd others, he]
  | some e =>
    rw [he] at hf
    refine ⟨m', ?_, hp, fun hn => ?_⟩
    · rw [feed_append_error hf, he]
    · rw [he] at hn
      cases hn

/-- A branch that is not taken: its block is passed over, and the further branches decide. -/
theorem EndsAs.untaken {m : Machine} {tokens : List Token} {below : List Frame} {ending : Ending}
    (h : m.EndsAs tokens below ending) (ha : m.active = false) (body : Block) :
    m.EndsAs (body.tokens ++ tokens) below ending := by
  obtain ⟨m', hf, h⟩ := h
  exact ⟨m', (feed_append (feed_inactive ha body) tokens).trans hf, h⟩

mutual

/-- An active machine that runs on the tokens of a block ends where the execution of the block ends, with the same chains open
as before. -/
theorem endsAs_block {m : Machine} (ha : m.active = true) :
    (block : Block) → m.EndsAs block.tokens m.frames (block.exec m.page)
  | .nil => ⟨m, rfl, rfl, fun _ => rfl⟩
  | .text o t after => by
    rw [Block.tokens, Block.exec]
    apply (endsAs_text ha o t).append (b := after.tokens)
    intro m' hm
    exact hm ▸ endsAs_block ((active_congr hm).trans ha) after
  | .set o body after => by
    rw [Block.tokens, Block.exec]
    apply (endsAs_set ha o body).append (b := after.tokens)
    intro m' hm
    exact hm ▸ endsAs_block ((active_congr hm).trans ha) after
  | .chain o condition body others after => by
    have hs : m.step ⟨o, .cond condition⟩ =
        m.holds condition >>= fun met => .ok { m with frames := ⟨true, met, met, o⟩ :: m.frames } := by
      simp only [step, ha, if_true]
      rfl
    have hafter : ∀ m' : Machine, m'.frames = m.frames → m'.EndsAs after.tokens m.frames (after.exec m'.page) :=
      fun m' hm => hm ▸ endsAs_block ((active_congr hm).trans ha) after
    rw [holds_eq] at hs
    rw [Block.tokens, Block.exec, ← List.append_assoc]
    cases hc : m.page.holds condition with
    | error e =>
      rw [hc] at hs
      exact endsAs_error hs _ _
    | ok met =>
      rw [hc] at hs
      apply EndsAs.cons hs
      cases met with
      | true => exact ((endsAs_block rfl body).taken rfl others).append hafter
      | false => exact ((endsAs_branches rfl rfl others).untaken rfl body).append hafter

/-- A machine whose innermost chain is still to be decided runs on the further branches of the chain and closes it: it ends
where the execution of those branches ends. -/
theorem endsAs_branches {m : Machine} {frame : Frame} {below : List Frame} (hf : m.frames = frame :: below)
    (hd : frame.decided = false) : (others : Branches) → m.EndsAs others.tokens below (others.exec m.page)
  | .finish o => by
    exact ⟨{ m with frames := below }, feed_singleton (step_finish hf), rfl, fun _ => rfl⟩
  | .elseCond o condition body others => by
    have hs : m.step ⟨o, .elseCond condition⟩ = m.holds condition >>= fun met =>
        .ok { m with frames := { frame with active := met, branchTaken := met } :: below } := by
      have hn : (!frame.parentActive || frame.branchTaken) = false := hd
      simp only [step, innermost, hf, bind, Except.bind, hn, Bool.false_eq_true, if_false]
      rfl
    obtain ⟨hp, -⟩ := Frame.decided_eq_false.1 hd
    rw [holds_eq] at hs
    rw [Branches.tokens, Branches.exec]
    cases hc : m.page.holds condition with
    | error e =>
      rw [hc] at hs
      exact endsAs_error hs _ _
    | ok met =>
      rw [hc] at hs
      apply EndsAs.cons hs
      have hact : active { m with frames := { frame with active := met, branchTaken := met } :: below } = met := by
        rw [active_cons rfl, hp, Bool.true_and]
      cases met with
      | true => exact (endsAs_block hact body).taken rfl others
      | false =>
        have hd' : Frame.decided { frame with active := false, branchTaken := false } = false :=
          Frame.decided_eq_false.2 ⟨hp, rfl⟩
        exact (endsAs_branches rfl hd' others).untaken hact body
  | .otherwise o body others => by
    have hs : m.step ⟨o, .otherwise⟩ =
        .ok { m with frames := { frame with active := true, branchTaken := true } :: below } := by
      rw [step_otherwise hf, hd, Bool.not_false, Bool.or_true]
    obtain ⟨hp, -⟩ := Frame.decided_eq_false.1 hd
    have hact : active { m with frames := { frame with active := true, branchTaken := true } :: below } = true := by
      rw [active_cons rfl, hp, Bool.true_and]
    rw [Branches.tokens, Branches.exec]
    exact EndsAs.cons hs ((endsAs_block hact body).taken rfl others)

end

/-! ## Whole runs -/

/-- A run on the tokens of a block from a machine without open chains ends as the execution of the block does. -/
theorem run_block {m : Machine} (hm : m.frames = []) (block : Block) :
    (m.run block.tokens).1.page = (block.exec m.page).page ∧ (m.run block.tokens).2 = (block.exec m.page).result := by
  have ha : m.active = true := by
    unfold active
    rw [hm]
  obtain ⟨m', hf, hp, hframes⟩ := endsAs_block ha block
  rw [run_fst, hf]
  refine ⟨hp, ?_⟩
  unfold run Ending.result
  rw [hf]
  cases he : (block.exec m.page).failure with
  | some e => rfl
  | none =>
    -- No chain is left open, so the output is given.
    have hm' : m'.frames = [] := (hframes he).trans hm
    unfold finish
    simp only [hm']
    rw [← hp]
    rfl

/-- A run on well-nested tokens from a machine without open chains is the execution of the one block that they write down: it
leaves the same variables, output and notices, and gives the same output or the same first failure. -/
theorem run_eq_exec {m : Machine} (hm : m.frames = []) {tokens : List Token} (h : Token.WellNested tokens) :
    ∃ block : Block, (∀ other : Block, other.tokens = tokens ↔ other = block) ∧
      (m.run tokens).1.page = (block.exec m.page).page ∧ (m.run tokens).2 = (block.exec m.page).result := by
  obtain ⟨block, rfl⟩ := (wellNested_iff tokens).1 h
  exact ⟨block, fun other => ⟨tokens_injective, fun ho => congrArg _ ho⟩, run_block hm block⟩

end

open scoped World in
/-- The run on a chain with a further branch after the one without a condition, and with a chain inside of it. -/
theorem run_eq_exec_nested :
    let m := Machine.start Context.builtins []
    let tokens : List Token := [⟨0, .cond "false".toList⟩, ⟨9, .otherwise⟩, ⟨14, .cond "x".toList⟩, ⟨20, .finish⟩,
      ⟨24, .elseCond "y".toList⟩, ⟨34, .finish⟩, ⟨38, .text "z".toList⟩]
    m.frames = [] ∧ Token.WellNested tokens ∧
      ∃ block : Block, (∀ other : Block, other.tokens = tokens ↔ other = block) ∧
        (m.run tokens).1.page = (block.exec m.page).page ∧ (m.run tokens).2 = (block.exec m.page).result :=
  ⟨rfl, by decide, run_eq_exec rfl (by decide)⟩

end Stencil.Machine
