import Stencil.Proofs.Run

/-!
# Activity

The machine reads whether it is active off its innermost frame alone. That is enough, because every frame remembers whether
everything around it is active (`Frame.Cached`): no step touches a frame below the innermost one, and a condition that fails
leaves the flags as they were. So in every state of a session the innermost frame tells about all of them.
-/

namespace Stencil

/-- The flags of a frame agree with the frames below it and with each other. -/
structure Frame.Cached (frame : Frame) (below : List Frame) : Prop where
  /-- The surroundings are active if every frame below is. -/
  parentActive_eq : frame.parentActive = below.all (·.active)
  /-- An active branch has been taken. -/
  taken_of_active : frame.active = true → frame.branchTaken = true
  /-- A branch is taken in active surroundings only. -/
  parent_of_taken : frame.branchTaken = true → frame.parentActive = true

/-- Every frame of a stack agrees with the frames below it. -/
def Frame.AllCached : List Frame → Prop
  | [] => True
  | frame :: below => frame.Cached below ∧ Frame.AllCached below

namespace Machine

/-! ## What a step keeps -/

/-- Where every frame agrees with those below it, the innermost one tells whether all are active. -/
theorem active_eq_all {m : Machine} (h : Frame.AllCached m.frames) : m.active = m.frames.all (·.active) := by
  unfold active
  split
  · rename_i hf
    rw [hf]
    rfl
  · rename_i frame below hf
    rw [hf] at h ⊢
    rw [List.all_cons, h.1.parentActive_eq, Bool.and_comm]

/-- A chain that is still to be decided agrees with the frames below it after a branch is tried. -/
theorem cached_tried {frame : Frame} {below : List Frame} (h : frame.Cached below) (hd : frame.decided = false)
    (met : Bool) : Frame.Cached { frame with active := met, branchTaken := met } below where
  parentActive_eq := h.parentActive_eq
  taken_of_active := id
  parent_of_taken := fun _ => (Frame.decided_eq_false.1 hd).1

/-- A chain agrees with the frames below it after a branch is passed over. -/
theorem cached_passed {frame : Frame} {below : List Frame} (h : frame.Cached below) :
    Frame.Cached { frame with active := false } below where
  parentActive_eq := h.parentActive_eq
  taken_of_active := nofun
  parent_of_taken := h.parent_of_taken

/-- A step keeps the agreement of every frame with those below it. -/
theorem allCached_step [World] {m m' : Machine} {token : Token} (hs : m.Steps token m') (h : Frame.AllCached m.frames) :
    Frame.AllCached m'.frames := by
  cases hs with
  | write => exact h
  | passText => exact h
  | assign _ ha => exact (assign_frames ha) ▸ h
  | passSet => exact h
  | enter ha _ =>
    refine ⟨⟨?_, id, fun _ => rfl⟩, h⟩
    rw [← active_eq_all h, ha]
  | passCond ha =>
    refine ⟨⟨?_, id, nofun⟩, h⟩
    rw [← active_eq_all h, ha]
  | tryBranch hf hd _ =>
    rw [hf] at h
    exact ⟨cached_tried h.1 hd _, h.2⟩
  | passBranch hf _ =>
    rw [hf] at h
    exact ⟨cached_passed h.1, h.2⟩
  | takeOtherwise hf hd =>
    rw [hf] at h
    exact ⟨cached_tried h.1 hd true, h.2⟩
  | passOtherwise hf _ =>
    rw [hf] at h
    exact ⟨cached_passed h.1, h.2⟩
  | leave hf =>
    rw [hf] at h
    exact h.2

/-! ## Every state of a session -/

/-- In every state of a session that starts with no chain open, every frame agrees with those below it. -/
theorem allCached_after [World] {m : Machine} (hm : m.frames = []) (events : List Event) :
    Frame.AllCached (m.after events).frames := by
  refine after_keeps (fun m => Frame.AllCached m.frames) allCached_step (fun _ _ h => h) events ?_
  rw [hm]
  trivial

/-- A frame of a stack agrees with those below it, wherever it stands. -/
theorem cached_of_allCached {frames above below : List Frame} {frame : Frame} (h : Frame.AllCached frames)
    (hf : frames = above ++ frame :: below) : frame.Cached below := by
  induction above generalizing frames with
  | nil =>
    rw [hf] at h
    exact h.1
  | cons _ above ih =>
    rw [hf] at h
    exact ih h.2 rfl

/-- The remembered flags are the true ones. In every state that a machine without open chains reaches by runs, also failing
ones, and by assignments: the surroundings of a frame count as active exactly if every frame below it is active, an active
frame has active surroundings and a branch taken, a branch is taken in active surroundings only, and the machine is active
exactly if all its frames are. -/
theorem active_iff_all_active [World] {m : Machine} (hm : m.frames = []) (events : List Event) :
    (∀ above frame below, (m.after events).frames = above ++ frame :: below →
      frame.parentActive = below.all (·.active) ∧
      (frame.active = true → frame.parentActive = true ∧ frame.branchTaken = true) ∧
      (frame.branchTaken = true → frame.parentActive = true)) ∧
    (m.after events).active = (m.after events).frames.all (·.active) := by
  have h := allCached_after hm events
  refine ⟨fun above frame below hf => ?_, active_eq_all h⟩
  have hc := cached_of_allCached h hf
  exact ⟨hc.parentActive_eq, fun ha => ⟨hc.parent_of_taken (hc.taken_of_active ha), hc.taken_of_active ha⟩,
    hc.parent_of_taken⟩

open scoped World in
/-- The flags are the true ones after a run that fails in the condition of an inner chain, so that the outer one stays open. -/
theorem active_iff_all_active_after_failure :
    let tokens : List Token := [⟨0, .cond "true".toList⟩, ⟨9, .cond []⟩]
    let m := start Context.builtins []
    m.frames = [] ∧ (m.run tokens).2 = .error (.evaluation (.malformed .empty) (some [])) ∧
      (m.after [.run tokens]).frames = [⟨true, true, true, 0⟩] ∧
      (m.after [.run tokens]).active = (m.after [.run tokens]).frames.all (·.active) := by
  intro tokens m
  have henter : m.step ⟨0, .cond "true".toList⟩ = .ok { m with frames := [⟨true, true, true, 0⟩] } :=
    step_enter rfl (holds_keyword (List.mem_cons_self ..))
  have hfails : Machine.step { m with frames := [⟨true, true, true, 0⟩] } ⟨9, .cond []⟩ =
      .error (.evaluation (.malformed .empty) (some [])) := by
    simp only [step, active, Bool.and_true, if_true, holds_nil]
    rfl
  have hrun : m.run tokens = ({ m with frames := [⟨true, true, true, 0⟩] }, .error (.evaluation (.malformed .empty) (some []))) :=
    (run_cons henter _).trans (run_cons_error hfails _)
  refine ⟨rfl, congrArg Prod.snd hrun, ?_, (active_iff_all_active rfl [.run tokens]).2⟩
  exact congrArg (fun after => after.1.frames) hrun

end Machine

end Stencil
