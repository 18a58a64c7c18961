import Stencil.Proofs.Run

/-!
# The life of a chain

A session is taken apart into single acts (`acts`), and a frame is followed from the act that opens its chain on, as long as the
chain stays open. Only the headers of the chain itself change the frame (`follow_act`), and each of them leaves a record: whether
it made the frame active. The frame knows from its flags how many headers have (`Frame.Recorded`), so no second one does.
-/

namespace Stencil

namespace Machine

/-! ## Sessions act by act -/

/-- One thing that is done with a machine. -/
inductive Act
  /-- It is handed a token. One that fails leaves it as it was. -/
  | token (token : Token)
  /-- A value is stored in its context. -/
  | assign (name : Text) (value : Value)

section

variable [World]

/-- The machine after an act. -/
def afterAct (m : Machine) : Act → Machine
  | .token token =>
    match m.step token with
    | .ok next => next
    | .error _ => m
  | .assign name value => { m with context := m.context.assign name value }

/-- The machine after acts one after another. -/
def afterActs (m : Machine) (acts : List Act) : Machine := acts.foldl afterAct m

/-- The tokens that a run comes to: all of them, or those up to the first that fails. -/
def handed (m : Machine) : List Token → List Token
  | [] => []
  | token :: rest =>
    match m.step token with
    | .ok next => token :: next.handed rest
    | .error _ => [token]

/-- A session act by act. -/
def acts (m : Machine) : List Event → List Act
  | [] => []
  | .run tokens :: rest => (m.handed tokens).map .token ++ (m.afterEvent (.run tokens)).acts rest
  | .assign name value :: rest => .assign name value :: (m.afterEvent (.assign name value)).acts rest

theorem afterActs_append (m : Machine) (a b : List Act) : m.afterActs (a ++ b) = (m.afterActs a).afterActs b :=
  List.foldl_append

/-- A run leaves the machine that its tokens leave, handed one by one. -/
theorem afterActs_handed (m : Machine) (tokens : List Token) :
    m.afterActs ((m.handed tokens).map .token) = (m.feed tokens).1 := by
  induction tokens generalizing m with
  | nil => rfl
  | cons token tokens ih =>
    simp only [handed, feed]
    cases hs : m.step token with
    | error e => simp only [List.map_cons, List.map_nil, afterActs, List.foldl_cons, List.foldl_nil, afterAct, hs]
    | ok next =>
      simp only [List.map_cons, afterActs, List.foldl_cons, afterAct, hs]
      exact ih next

/-- A session leaves the machine that its acts leave. -/
theorem afterActs_acts (m : Machine) (events : List Event) : m.afterActs (m.acts events) = m.after events := by
  induction events generalizing m with
  | nil => rfl
  | cons event events ih =>
    cases event with
    | run tokens =>
      rw [acts, afterActs_append, afterActs_handed, ← run_fst]
      exact ih _
    | assign name value => exact ih _

/-! ## The frame of a chain -/

/-- The frame at a depth: the outermost one is at depth zero. -/
def frameAt (m : Machine) (depth : Nat) : Option Frame := m.frames.reverse[depth]?

/-- Whether an act hands over a header of the chain at a depth: a further branch, where that chain is the innermost. -/
def heads (m : Machine) (depth : Nat) : Act → Bool
  | .token ⟨_, .elseCond _⟩ | .token ⟨_, .otherwise⟩ => m.frames.length == depth + 1
  | _ => false

/-- The chain at a depth is open, and stays so in all of the acts. -/
def StaysOpen (m : Machine) (depth : Nat) : List Act → Prop
  | [] => depth < m.frames.length
  | act :: rest => depth < m.frames.length ∧ (m.afterAct act).StaysOpen depth rest

/-- A flag of the frame at a depth. -/
def flagAt (m : Machine) (depth : Nat) (flag : Frame → Bool) : Bool := (m.frameAt depth).any flag

/-- For each header of the chain at a depth among the acts, in order, whether it leaves the frame active. -/
def headerFlags (m : Machine) (depth : Nat) : List Act → List Bool
  | [] => []
  | act :: rest =>
    let next := m.afterAct act
    if m.heads depth act then next.flagAt depth (·.active) :: next.headerFlags depth rest else next.headerFlags depth rest

/-- What holds of a chain from where it has been opened, at a depth, through acts in all of which it stays open. The flags of its
headers are counted with the one that its first directive leaves. -/
structure Exclusive (opened : Machine) (depth : Nat) (life : List Act) : Prop where
  /-- Nothing but a header of its own changes its frame. -/
  changed : ∀ a act b, life = a ++ act :: b → (opened.afterActs a).heads depth act = false →
    (opened.afterActs (a ++ [act])).frameAt depth = (opened.afterActs a).frameAt depth
  /-- Once a branch has been taken, one has been taken for good. -/
  taken : ∀ a act b, life = a ++ act :: b → (opened.afterActs a).flagAt depth (·.branchTaken) = true →
    (opened.afterActs (a ++ [act])).flagAt depth (·.branchTaken) = true
  /-- At most one header leaves the frame active. -/
  active_once : (opened.flagAt depth (·.active) :: opened.headerFlags depth life).count true ≤ 1
  /-- Once one has, the condition of a further branch is not looked at: whatever it is, the branch is passed over. -/
  passed : true ∈ opened.flagAt depth (·.active) :: opened.headerFlags depth life →
    ∀ frame below, (opened.afterActs life).frames = frame :: below → below.length = depth → ∀ o condition,
      (opened.afterActs life).step ⟨o, .elseCond condition⟩ =
        .ok { opened.afterActs life with frames := { frame with active := false } :: below }
  /-- After a branch without a condition, in active surroundings, exactly one header has left the frame active. -/
  otherwise : ∀ a o b, life = a ++ .token ⟨o, .otherwise⟩ :: b →
    (opened.afterActs a).heads depth (.token ⟨o, .otherwise⟩) = true →
    (opened.afterActs a).flagAt depth (·.parentActive) = true →
    (opened.flagAt depth (·.active) :: opened.headerFlags depth life).count true = 1

end

end Machine

/-- What a header makes of the frame of its chain. -/
inductive Frame.Headed (frame : Frame) : Frame → Prop
  /-- The chain is decided, and the branch is passed over. -/
  | passed : frame.decided = true → Headed frame { frame with active := false }
  /-- The chain is still to be decided, and the branch is taken or not. -/
  | tried (met : Bool) : frame.decided = false → Headed frame { frame with active := met, branchTaken := met }
  /-- The chain is still to be decided, and the condition fails. -/
  | failed : frame.decided = false → Headed frame frame

/-- The flags of a frame record which of its headers have left it active: none as long as no branch is taken, and otherwise one. -/
structure Frame.Recorded (frame : Frame) (flags : List Bool) : Prop where
  /-- A branch is taken exactly if one header has left the frame active. -/
  count_eq : flags.count true = frame.branchTaken.toNat
  /-- An active branch has been taken. -/
  taken_of_active : frame.active = true → frame.branchTaken = true

namespace Frame

variable {frame frame' : Frame} {flags : List Bool}

/-- A header adds to the record what it makes of the frame. -/
theorem Recorded.headed (h : frame.Recorded flags) (hh : frame.Headed frame') :
    frame'.Recorded (flags ++ [frame'.active]) := by
  cases hh with
  | passed hd => exact ⟨by simpa using h.count_eq, nofun⟩
  | tried met hd =>
    have hcount := h.count_eq
    rw [(decided_eq_false.1 hd).2] at hcount
    refine ⟨?_, id⟩
    rw [List.count_append, hcount]
    cases met <;> rfl
  | failed hd =>
    have hactive : frame.active = false := by
      have := h.taken_of_active
      rw [(decided_eq_false.1 hd).2] at this
      simpa using this
    exact ⟨by simpa [hactive] using h.count_eq, h.taken_of_active⟩

/-- A header has left the frame active exactly if a branch has been taken. -/
theorem Recorded.mem_iff (h : frame.Recorded flags) : true ∈ flags ↔ frame.branchTaken = true := by
  rw [← List.count_pos_iff, h.count_eq]
  cases frame.branchTaken <;> decide

/-- What a frame keeps all its life: where its chain was opened and in what surroundings, and that a branch has been taken. -/
structure Becomes (frame frame' : Frame) : Prop where
  offset_eq : frame'.offset = frame.offset
  parentActive_eq : frame'.parentActive = frame.parentActive
  taken : frame.branchTaken = true → frame'.branchTaken = true

theorem Becomes.refl (frame : Frame) : frame.Becomes frame := ⟨rfl, rfl, id⟩

theorem Becomes.trans {frame'' : Frame} (h : frame.Becomes frame') (h' : frame'.Becomes frame'') : frame.Becomes frame'' :=
  ⟨h'.offset_eq.trans h.offset_eq, h'.parentActive_eq.trans h.parentActive_eq, fun ht => h'.taken (h.taken ht)⟩

/-- A header keeps what a frame keeps all its life. -/
theorem Headed.becomes (h : frame.Headed frame') : frame.Becomes frame' := by
  cases h with
  | passed => exact ⟨rfl, rfl, id⟩
  | tried met hd => exact ⟨rfl, rfl, fun ht => absurd ht (by simp [(decided_eq_false.1 hd).2])⟩
  | failed => exact .refl frame

end Frame

namespace Machine

variable {m : Machine} {frame : Frame} {above below : List Frame}

theorem frameAt_eq (hf : m.frames = above ++ frame :: below) : m.frameAt below.length = some frame := by
  simp [frameAt, hf]

/-- A header of the innermost chain is one of the chain that is followed if no other is over it, and else leaves its frame. -/
theorem follow_header {top top' : Frame} {rest : List Frame} (hf : m.frames = above ++ frame :: below)
    (htop : m.frames = top :: rest) (hh : top.Headed top') :
    ∃ above' frame', top' :: rest = above' ++ frame' :: below ∧
      if m.frames.length == below.length + 1 then frame.Headed frame' else frame' = frame := by
  rw [hf] at htop ⊢
  cases above with
  | nil =>
    cases htop
    exact ⟨[], top', rfl, by rwa [if_pos (by simp)]⟩
  | cons inner above =>
    cases htop
    exact ⟨top' :: above, frame, rfl, by rw [if_neg (by simp; omega)]⟩

/-- The frame that is followed is the innermost one if no other is over it. -/
theorem innermost_of_length (hf : m.frames = above ++ frame :: below) (hlength : m.frames.length = below.length + 1) :
    m.frames = frame :: below := by
  rw [hf, List.length_append, List.length_cons] at hlength
  obtain rfl := List.length_eq_zero_iff.1 (show above.length = 0 by omega)
  exact hf

section

variable [World]

/-- A step that leaves a chain open leaves the frames below it, and changes its frame only if the token is a header of it. -/
theorem follow_step {m' : Machine} {token : Token} (hs : m.Steps token m') (hf : m.frames = above ++ frame :: below)
    (hopen : below.length < m'.frames.length) :
    ∃ above' frame', m'.frames = above' ++ frame' :: below ∧
      if m.heads below.length (.token token) then frame.Headed frame' else frame' = frame := by
  cases hs with
  | write | passText | passSet => exact ⟨above, frame, hf, rfl⟩
  | assign _ ha => exact ⟨above, frame, (assign_frames ha).trans hf, rfl⟩
  | enter | passCond => exact ⟨_ :: above, frame, congrArg _ hf, rfl⟩
  | tryBranch htop hd _ => exact follow_header hf htop (.tried _ hd)
  | takeOtherwise htop hd => exact follow_header hf htop (.tried true hd)
  | passBranch htop hd | passOtherwise htop hd => exact follow_header hf htop (.passed hd)
  | leave htop =>
    rw [hf] at htop
    cases above with
    | nil =>
      cases htop
      exact absurd hopen (Nat.lt_irrefl _)
    | cons inner above =>
      cases htop
      exact ⟨above, frame, rfl, rfl⟩

/-- A token that fails leaves every frame. If it is a header of the chain that is followed, its condition has failed. -/
theorem follow_failure {token : Token} {e : Failure} (h : m.Fails token e) (hf : m.frames = above ++ frame :: below) :
    if m.heads below.length (.token token) then frame.Headed frame else frame = frame := by
  split
  · rename_i hh
    cases h with
    | writeLong | writeObject | noAssignment | assign | enter => cases hh
    | unmatched hnone => simp [hf] at hnone
    | tryBranch htop hd =>
      rw [hf] at htop
      cases above with
      | nil =>
        cases htop
        exact .failed hd
      | cons inner above =>
        simp [heads, hf] at hh
        omega
  · rfl

/-- An act that leaves a chain open leaves the frames below it, and changes its frame only if it hands over a header of it. -/
theorem follow_act {act : Act} (hf : m.frames = above ++ frame :: below)
    (hopen : below.length < (m.afterAct act).frames.length) :
    ∃ above' frame', (m.afterAct act).frames = above' ++ frame' :: below ∧
      if m.heads below.length act then frame.Headed frame' else frame' = frame := by
  cases act with
  | assign name value => exact ⟨above, frame, hf, rfl⟩
  | token token =>
    simp only [afterAct] at hopen ⊢
    cases hs : m.step token with
    | error e => exact ⟨above, frame, hf, follow_failure (fails_of_step hs) hf⟩
    | ok next =>
      simp only [hs] at hopen
      exact follow_step (steps_of_step hs) hf hopen

/-! ## Following a frame -/

variable {flags : List Bool} {life a b : List Act} {depth : Nat}

theorem StaysOpen.lt (h : m.StaysOpen depth life) : depth < m.frames.length := by
  cases life with
  | nil => exact h
  | cons => exact h.1

/-- A chain stays open in acts exactly if it does in some of them and then in the others. -/
theorem staysOpen_append : m.StaysOpen depth (a ++ b) ↔ m.StaysOpen depth a ∧ (m.afterActs a).StaysOpen depth b := by
  induction a generalizing m with
  | nil => exact ⟨fun h => ⟨h.lt, h⟩, fun h => h.2⟩
  | cons act a ih => simp only [List.cons_append, StaysOpen, ih, and_assoc, afterActs, List.foldl_cons]

/-- The headers among acts are those among some of them and then those among the others. -/
theorem headerFlags_append :
    m.headerFlags depth (a ++ b) = m.headerFlags depth a ++ (m.afterActs a).headerFlags depth b := by
  induction a generalizing m with
  | nil => rfl
  | cons act a ih =>
    simp only [List.cons_append, headerFlags, ih, afterActs, List.foldl_cons]
    split <;> rfl

/-- Through acts in which a chain stays open, its frame stays over the same others and its flags record its headers. -/
theorem follow_acts (hf : m.frames = above ++ frame :: below) (hr : frame.Recorded flags)
    (hopen : m.StaysOpen below.length life) :
    ∃ above' frame', (m.afterActs life).frames = above' ++ frame' :: below ∧ frame.Becomes frame' ∧
      frame'.Recorded (flags ++ m.headerFlags below.length life) := by
  induction life generalizing m above frame flags with
  | nil => exact ⟨above, frame, hf, .refl frame, by rwa [headerFlags, List.append_nil]⟩
  | cons act life ih =>
    obtain ⟨above', frame', hf', hact⟩ := follow_act hf hopen.2.lt
    rw [headerFlags]
    cases hh : m.heads below.length act with
    | true =>
      rw [hh, if_pos rfl] at hact
      obtain ⟨above'', frame'', hf'', hb, hr''⟩ := ih hf' (hr.headed hact) hopen.2
      refine ⟨above'', frame'', hf'', hact.becomes.trans hb, ?_⟩
      simpa only [flagAt, frameAt_eq hf', Option.any_some, if_true, List.append_assoc, List.singleton_append] using hr''
    | false =>
      rw [hh, if_neg Bool.false_ne_true] at hact
      subst hact
      exact ih hf' hr hopen.2

/-- Around each of the acts in which a chain stays open: its frame before the act and after it. -/
theorem follow_cut {act : Act} (hf : m.frames = above ++ frame :: below) (hr : frame.Recorded flags)
    (hopen : m.StaysOpen below.length (a ++ act :: b)) :
    ∃ above₁ frame₁ above₂ frame₂, (m.afterActs a).frames = above₁ ++ frame₁ :: below ∧
      (m.afterActs (a ++ [act])).frames = above₂ ++ frame₂ :: below ∧
      if (m.afterActs a).heads below.length act then frame₁.Headed frame₂ else frame₂ = frame₁ := by
  obtain ⟨hopena, hopenb⟩ := staysOpen_append.1 hopen
  obtain ⟨above₁, frame₁, hf₁, -, -⟩ := follow_acts hf hr hopena
  obtain ⟨above₂, frame₂, hf₂, hact⟩ := follow_act hf₁ hopenb.2.lt
  exact ⟨above₁, frame₁, above₂, frame₂, hf₁, by rw [afterActs_append]; exact hf₂, hact⟩

/-- A branch without a condition leaves its chain decided. -/
theorem decided_of_otherwise {o : Nat} (hf : m.frames = frame :: below) :
    ∃ frame', (m.afterAct (.token ⟨o, .otherwise⟩)).frames = frame' :: below ∧ frame'.decided = true := by
  rw [afterAct, step_otherwise hf]
  refine ⟨_, rfl, ?_⟩
  cases hd : frame.decided with
  | true => rw [Bool.not_true, Bool.or_false]; exact hd
  | false => simp [Frame.decided]

/-- After a branch without a condition, in active surroundings, a branch of the chain has been taken. -/
theorem taken_of_otherwise {o : Nat} (hf : m.frames = above ++ frame :: below) (hr : frame.Recorded flags)
    (hopen : m.StaysOpen below.length (a ++ [.token ⟨o, .otherwise⟩]))
    (hh : (m.afterActs a).heads below.length (.token ⟨o, .otherwise⟩) = true)
    (hp : (m.afterActs a).flagAt below.length (·.parentActive) = true) :
    ∃ above' frame', (m.afterActs (a ++ [.token ⟨o, .otherwise⟩])).frames = above' ++ frame' :: below ∧
      frame'.branchTaken = true ∧
      frame'.Recorded (flags ++ m.headerFlags below.length (a ++ [.token ⟨o, .otherwise⟩])) := by
  obtain ⟨above₁, frame₁, hf₁, hb₁, -⟩ := follow_acts hf hr (staysOpen_append.1 hopen).1
  obtain ⟨above₂, frame₂, hf₂, hb₂, hr₂⟩ := follow_acts hf hr hopen
  refine ⟨above₂, frame₂, hf₂, ?_, hr₂⟩
  obtain ⟨top, htop, hd⟩ := decided_of_otherwise (o := o) (innermost_of_length hf₁ (by simpa [heads] using hh))
  obtain rfl : frame₂ = top := by
    rw [afterActs_append] at hf₂
    have hat := frameAt_eq (show _ = [] ++ top :: below from htop)
    exact Option.some.inj ((frameAt_eq hf₂).symm.trans hat)
  rw [flagAt, frameAt_eq hf₁, Option.any_some, hb₁.parentActive_eq, ← hb₂.parentActive_eq] at hp
  rwa [Frame.decided, hp] at hd

/-- What has been said of a chain holds from any frame on whose flags record what has been made of it so far. -/
theorem exclusive_of_recorded (hf : m.frames = [] ++ frame :: below) (hr : frame.Recorded [frame.active])
    (hopen : m.StaysOpen below.length life) : m.Exclusive below.length life := by
  have hflag : m.flagAt below.length (·.active) = frame.active := by rw [flagAt, frameAt_eq hf, Option.any_some]
  obtain ⟨above', frame', hf', -, hr'⟩ := follow_acts hf hr hopen
  rw [← hflag] at hr'
  constructor
  case changed =>
    rintro a act b rfl hh
    obtain ⟨above₁, frame₁, above₂, frame₂, hf₁, hf₂, hact⟩ := follow_cut hf hr hopen
    rw [hh, if_neg Bool.false_ne_true] at hact
    rw [frameAt_eq hf₁, frameAt_eq hf₂, hact]
  case taken =>
    rintro a act b rfl ht
    obtain ⟨above₁, frame₁, above₂, frame₂, hf₁, hf₂, hact⟩ := follow_cut hf hr hopen
    rw [flagAt, frameAt_eq hf₁, Option.any_some] at ht
    rw [flagAt, frameAt_eq hf₂, Option.any_some]
    split at hact
    · exact hact.becomes.taken ht
    · rwa [hact]
  case active_once => exact hr'.count_eq ▸ Bool.toNat_le _
  case passed =>
    intro hmem top rest htop hdepth o condition
    have hinner := innermost_of_length hf' (by rw [htop, List.length_cons, hdepth])
    cases htop.symm.trans hinner
    refine step_elseCond_of_decided hinner ?_
    rw [Frame.decided, hr'.mem_iff.1 hmem, Bool.or_true]
  case otherwise =>
    rintro a o b rfl hh hp
    have hcut : a ++ Act.token ⟨o, .otherwise⟩ :: b = (a ++ [.token ⟨o, .otherwise⟩]) ++ b := by
      rw [List.append_assoc, List.singleton_append]
    rw [hcut] at hopen ⊢
    obtain ⟨hopena, hopenb⟩ := staysOpen_append.1 hopen
    -- From the branch without a condition on, the frame knows that one has been taken, and its record counts it.
    obtain ⟨above₂, frame₂, hf₂, htaken, hr₂⟩ := taken_of_otherwise hf hr hopena hh hp
    obtain ⟨above₃, frame₃, -, hb₃, hr₃⟩ := follow_acts hf₂ hr₂ hopenb
    rw [List.append_assoc, ← headerFlags_append, ← hflag, List.singleton_append] at hr₃
    rw [hr₃.count_eq, hb₃.taken htaken, Bool.toNat_true]

/-- The act that opens a chain pushes a frame on whose flags its first directive is recorded. -/
theorem opened_frame {o : Nat} {condition : Text}
    (hopen : m.frames.length < (m.afterAct (.token ⟨o, .cond condition⟩)).frames.length) :
    ∃ frame, (m.afterAct (.token ⟨o, .cond condition⟩)).frames = frame :: m.frames ∧ frame.offset = o ∧
      frame.parentActive = m.active ∧ frame.Recorded [frame.active] := by
  rw [afterAct] at hopen ⊢
  cases hs : m.step ⟨o, .cond condition⟩ with
  | error e =>
    rw [hs] at hopen
    exact absurd hopen (Nat.lt_irrefl _)
  | ok next =>
    cases steps_of_step hs with
    | @enter _ _ met ha _ => exact ⟨_, rfl, rfl, ha.symm, by cases met <;> rfl, id⟩
    | passCond ha => exact ⟨_, rfl, rfl, ha.symm, rfl, id⟩

/-- Of every chain at most one branch is taken, all its life. Take any session, act by act, an act in it that opens a chain, and
any stretch of the acts after it in which the chain stays open. The chain has a frame over the ones that were there, with the
place of its first directive and the activity of its surroundings, and what is said of it there holds (`Exclusive`). -/
theorem chain_exclusive (m : Machine) (events : List Event) :
    m.afterActs (m.acts events) = m.after events ∧
    ∀ earlier o condition life later, m.acts events = earlier ++ .token ⟨o, .cond condition⟩ :: (life ++ later) →
      let before := m.afterActs earlier
      let opened := before.afterAct (.token ⟨o, .cond condition⟩)
      opened.StaysOpen before.frames.length life →
        (∃ above frame, (opened.afterActs life).frames = above ++ frame :: before.frames ∧
          frame.offset = o ∧ frame.parentActive = before.active) ∧
        opened.Exclusive before.frames.length life := by
  refine ⟨afterActs_acts m events, fun earlier o condition life later _ => ?_⟩
  intro before opened hopen
  obtain ⟨frame, hf, ho, hp, hr⟩ := opened_frame hopen.lt
  obtain ⟨above', frame', hf', hb', -⟩ := follow_acts (show opened.frames = [] ++ frame :: before.frames from hf) hr hopen
  exact ⟨⟨above', frame', hf', hb'.offset_eq.trans ho, hb'.parentActive_eq.trans hp⟩, exclusive_of_recorded hf hr hopen⟩

end

open scoped World in
/-- The life of a chain in which a condition fails, a value is stored, and the branch without a condition comes twice. -/
theorem chain_exclusive_failing_branch :
    let m := start Context.builtins []
    let first : Token := ⟨0, .cond "false"⟩
    let failing : List Token := [first, ⟨10, .elseCond []⟩, ⟨15, .finish⟩]
    let events : List Event := [.run failing, .assign "x" .null, .run [⟨20, .otherwise⟩, ⟨25, .otherwise⟩]]
    let life : List Act :=
      [.token ⟨10, .elseCond []⟩, .assign "x" .null, .token ⟨20, .otherwise⟩, .token ⟨25, .otherwise⟩]
    let opened := m.afterAct (.token first)
    m.acts events = .token first :: life ∧ opened.StaysOpen 0 life ∧
      opened.headerFlags 0 life = [false, true, false] ∧ opened.Exclusive 0 life := by
  intro m first failing events life opened
  obtain ⟨-, hlife⟩ := chain_exclusive m events
  have hholds : m.holds "false" = .ok false := holds_keyword (by decide : ("false".toList, Literal.bool false) ∈ Expr.keywords)
  have hcond : m.step first = .ok { m with frames := [⟨true, false, false, 0⟩] } := step_enter rfl hholds
  have hopened : opened = { m with frames := [⟨true, false, false, 0⟩] } := by
    simp only [opened, afterAct, hcond]
  have hfail : opened.step ⟨10, .elseCond []⟩ = .error (.evaluation (.malformed .empty) (some [])) := by
    rw [hopened]
    simp only [step, holds_nil]
    rfl
  have hrun : m.afterEvent (.run failing) = opened := by
    rw [afterEvent, run_fst]
    simp only [failing, feed, hcond, ← hopened, hfail]
  have hhanded : m.handed failing = [first, ⟨10, .elseCond []⟩] := by
    simp only [failing, handed, hcond, ← hopened, hfail]
  have hacts : m.acts events = .token first :: life := by
    rw [acts, hrun, hhanded, hopened]
    rfl
  have hleft : opened.afterAct (.token ⟨10, .elseCond []⟩) = opened := by simp only [afterAct, hfail]
  have hopen : opened.StaysOpen 0 life := by
    simp only [life, StaysOpen, hleft]
    rw [hopened]
    decide
  have hflags : opened.headerFlags 0 life = [false, true, false] := by
    simp only [life, headerFlags, hleft]
    rw [hopened]
    rfl
  exact ⟨hacts, hopen, hflags, (hlife [] 0 "false" life [] (by rw [List.append_nil]; exact hacts) hopen).2⟩

end Machine

end Stencil
