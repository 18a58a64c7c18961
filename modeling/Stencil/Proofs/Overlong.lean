import Stencil.Proofs.Labelling
import Stencil.Proofs.Reference
import Stencil.Render.Basic

/-!
# Values that cannot be written

Every failure of rendering is of one of the four kinds that a template is said to have, except where it comes to a value that cannot be
written, referred to in text that is written, or where an object of the caller's raises an error that an evaluation lets pass
(`render_kind_iff`). A value cannot be written if it holds an integer that is too long for a text, or an object that fails. Inside of
an expression the same integer is a fault of evaluation.

The values are those that are modelled: a list that is nested deeper than the stack reaches and an integer that is too long as a key of a
mapping cannot be written either, and there are no such values here.
-/

namespace Stencil

/-- A value is one with a property, or holds one in its items. -/
inductive Value.Holds (P : Value → Prop) : Value → Prop
  | self {v : Value} : P v → Holds P v
  | list {items : List (Nat × Value)} {item : Nat × Value} : item ∈ items → Holds P item.2 → Holds P (.list items)
  | mapping {names : Names} {values : Fin names.count → Nat × Value} (i : Fin names.count) : Holds P (values i).2 →
      Holds P (.mapping names values)

/-- An integer with more digits than are written. -/
inductive Value.IsLong : Value → Prop
  | int {n : Int} : Binary64.tenTo digitLimit ≤ n.natAbs → IsLong (.number (.int n))

/-- A value that holds an integer with more digits than are written. -/
def Value.Overlong (v : Value) : Prop := v.Holds IsLong

theorem Value.Holds.mono {P Q : Value → Prop} {v : Value} (h : v.Holds P) (hPQ : ∀ v, P v → Q v) : v.Holds Q := by
  induction h with
  | self h => exact .self (hPQ _ h)
  | list hmem _ ih => exact .list hmem ih
  | mapping i _ ih => exact .mapping i ih

/-! ## Writing values -/

/-- An integer is not written exactly if it has too many digits. -/
theorem writeInteger_fails_iff {n : Int} : (∃ e, writeInteger n = .error e) ↔ Binary64.tenTo digitLimit ≤ n.natAbs := by
  unfold writeInteger
  split
  · rename_i h
    exact iff_of_false nofun (Nat.not_le.2 h)
  · rename_i h
    exact iff_of_true ⟨_, rfl⟩ (Nat.not_lt.1 h)

namespace Binary64

theorem two_pow_le_tenTo (k : Nat) : Nat.pow 2 k ≤ tenTo k := Nat.pow_le_pow_left (by decide) k

theorem tenTo_le_tenTo {k n : Nat} (h : k ≤ n) : tenTo k ≤ tenTo n := Nat.pow_le_pow_right (by decide) h

/-- The units of every magnitude are fewer than the least integer that is too long to be written. -/
theorem units_lt (rank : Fin rankCount) : units rank < tenTo digitLimit := by
  have hrank : rank.val < 2047 * 4503599627370496 := rank.isLt
  have hshift : 53 + shiftOf rank ≤ digitLimit := by
    unfold shiftOf binade digitLimit
    omega
  have hsignificand : rank - shiftOf rank * binade < 2 ^ 53 := by
    unfold shiftOf binade
    omega
  rw [units, Nat.shiftLeft_eq]
  calc (rank - shiftOf rank * binade) * 2 ^ shiftOf rank
      < 2 ^ 53 * 2 ^ shiftOf rank := Nat.mul_lt_mul_of_pos_right hsignificand (Nat.two_pow_pos _)
    _ = 2 ^ (53 + shiftOf rank) := (Nat.pow_add 2 53 _).symm
    _ ≤ tenTo (53 + shiftOf rank) := two_pow_le_tenTo _
    _ ≤ tenTo digitLimit := tenTo_le_tenTo hshift

theorem natAbs_signed (negative : Bool) (magnitude : Nat) : (signed negative magnitude).natAbs = magnitude := by
  cases negative
  · exact Int.natAbs_natCast magnitude
  · exact Int.natAbs_neg _

/-- The integer part of a binary64 number is never too long to be written. -/
theorem natAbs_truncateUnits_lt {x : Binary64} {u : Int} (h : x.toUnits? = some u) :
    (truncateUnits u).natAbs < tenTo digitLimit := by
  cases x with
  | nan | infinite => cases h
  | finite negative rank =>
    cases h
    rw [truncateUnits, Int.natAbs_tdiv, natAbs_signed]
    exact Nat.lt_of_le_of_lt (Nat.div_le_self _ _) (units_lt rank)

end Binary64

/-- A result with its errors turned into others is an error exactly if it is one. -/
theorem mapError_fails_iff {α ε ε' : Type} {result : Except ε α} {f : ε → ε'} :
    (∃ e, result.mapError f = .error e) ↔ ∃ e, result = .error e := by
  cases result with
  | error e => exact iff_of_true ⟨_, rfl⟩ ⟨_, rfl⟩
  | ok a => exact iff_of_false nofun nofun

section

variable [World]

namespace Value

/-- A value that stands in the way of being shown: an integer that is too long, or an object that fails. -/
inductive Blocks : Value → Prop
  | long {v : Value} : v.IsLong → Blocks v
  | object {i : Nat} {e : ObjectError} : World.shown i = .error e → Blocks (host i)

/-- A value that cannot be written: an object that fails, or another value that holds one that stands in the way. -/
def Unwritable : Value → Prop
  | host i => ∃ e, World.text i = .error e
  | v => v.Holds Blocks

/-- Where objects raise nothing, a value cannot be written exactly if it holds an integer that is too long. -/
theorem unwritable_iff_overlong (h : ∀ e, ¬World.Raises e) (v : Value) : v.Unwritable ↔ v.Overlong := by
  have hblocks : v.Holds Blocks ↔ v.Overlong := by
    refine ⟨fun hv => hv.mono fun v hblocks => ?_, fun hv => hv.mono fun v => .long⟩
    cases hblocks with
    | long hlong => exact hlong
    | object he => exact absurd (.shown he) (h _)
  cases v with
  | host i =>
    refine iff_of_false (fun ⟨e, he⟩ => h e (.text he)) fun hv => ?_
    cases hv with
    | self hlong => cases hlong
  | _ => exact hblocks

/-- In the way of showing a list stands what stands in the way of one of its items. -/
theorem holds_list_iff {items : List (Nat × Value)} :
    (list items).Holds Blocks ↔ ∃ item ∈ items, item.2.Holds Blocks := by
  constructor
  · intro h
    cases h with
    | self h =>
      cases h with
      | long h => cases h
    | list hmem hitem => exact ⟨_, hmem, hitem⟩
  · rintro ⟨item, hmem, hitem⟩
    exact .list hmem hitem

/-- In the way of showing a mapping stands what stands in the way of one of its values. -/
theorem holds_mapping_iff {names : Names} {values : Fin names.count → Nat × Value} :
    (mapping names values).Holds Blocks ↔ ∃ i, (values i).2.Holds Blocks := by
  constructor
  · intro h
    cases h with
    | self h =>
      cases h with
      | long h => cases h
    | mapping i hi => exact ⟨i, hi⟩
  · rintro ⟨i, hi⟩
    exact .mapping i hi

mutual

/-- A value is not shown exactly if something in it stands in the way. -/
theorem shown_fails_iff : (v : Value) → ((∃ e, v.shown = .error e) ↔ v.Holds Blocks)
  | null | bool _ | number (.float _) | text _ | moment _ | library _ | builtin _ => by
    refine iff_of_false (by simp [shown]) fun h => ?_
    cases h with
    | self h =>
      cases h with
      | long h => cases h
  | number (.int n) => by
    rw [shown, Obstacle.ofDigits, mapError_fails_iff, writeInteger_fails_iff]
    refine ⟨fun h => .self (.long (.int h)), fun h => ?_⟩
    cases h with
    | self h =>
      cases h with
      | long h =>
        cases h with
        | int h => exact h
  | list items => by
    rw [shown, exists_congr fun _ => bind_pure_error_iff, shownItems_fails_iff items, holds_list_iff]
  | mapping names values => by
    rw [shown, exists_congr fun _ => bind_pure_error_iff, mapM_fails_iff, holds_mapping_iff]
    refine exists_congr fun i => ?_
    rw [and_iff_right (List.mem_finRange i), exists_congr fun _ => bind_pure_error_iff, shownItem_fails_iff (values i)]
  | host i => by
    rw [shown, Obstacle.ofObject, mapError_fails_iff]
    refine ⟨fun ⟨e, he⟩ => .self (.object he), fun h => ?_⟩
    cases h with
    | self h =>
      cases h with
      | long h => cases h
      | object he => exact ⟨_, he⟩

theorem shownItem_fails_iff : (item : Nat × Value) → ((∃ e, shownItem item = .error e) ↔ item.2.Holds Blocks)
  | (_, v) => shown_fails_iff v

/-- The items of a list are not shown exactly if something in one of them stands in the way. -/
theorem shownItems_fails_iff : (items : List (Nat × Value)) →
    ((∃ e, shownItems items = .error e) ↔ ∃ item ∈ items, item.2.Holds Blocks)
  | [] => by simp [shownItems]
  | item :: rest => by
    rw [shownItems, bind_bind_fails_iff, shownItem_fails_iff item, shownItems_fails_iff rest]
    simp only [List.mem_cons, exists_eq_or_imp]

end

/-- Which values cannot be written. A binary64 number always can. -/
theorem toText_fails_iff (v : Value) : (∃ e, v.toText = .error e) ↔ v.Unwritable := by
  have hleaf : ∀ {v : Value} {t : Text}, v.toText = .ok t → (¬∃ e, v.shown = .error e) → v.Unwritable = v.Holds Blocks →
      ((∃ e, v.toText = .error e) ↔ v.Unwritable) := by
    intro v t ht hshown heq
    rw [ht, heq, ← shown_fails_iff]
    exact iff_of_false nofun hshown
  cases v with
  | number n =>
    cases n with
    | int n => exact shown_fails_iff _
    | float x =>
      have hno : ¬∃ e, (number (.float x)).shown = .error e := by simp [shown]
      have hfloat : ∃ t, (number (.float x)).toText = .ok t := by
        rw [toText]
        split
        · rename_i u hu
          split
          · have hshort : ¬∃ e, writeInteger (Binary64.truncateUnits u) = .error e := by
              rw [writeInteger_fails_iff]
              exact Nat.not_le.2 (Binary64.natAbs_truncateUnits_lt hu)
            cases hw : writeInteger (Binary64.truncateUnits u) with
            | error e => exact absurd ⟨e, hw⟩ hshort
            | ok t => exact ⟨t, rfl⟩
          · exact ⟨_, rfl⟩
        · exact ⟨_, rfl⟩
      obtain ⟨t, ht⟩ := hfloat
      exact hleaf ht hno rfl
  | list | mapping => exact shown_fails_iff _
  | host i => exact mapError_fails_iff
  | null | bool | text | moment | library | builtin => exact hleaf rfl (by simp [shown]) rfl

end Value

/-! ## Writing text -/

/-- A piece of a span of text is not written exactly if it refers to a value that cannot be. -/
theorem Piece.written_fails_iff {entries : Entries Value} {piece : Piece} :
    (∃ e, piece.written entries = .error e) ↔
      ∃ name v, piece = .reference name ∧ Entries.get? name entries = some v ∧ v.Unwritable := by
  cases piece with
  | literal t =>
    constructor
    · rintro ⟨e, h⟩
      cases h
    · rintro ⟨name, v, h, -⟩
      cases h
  | reference name =>
    simp only [written, Value.toText_fails_iff]
    constructor
    · intro h
      cases hget : Entries.get? name entries with
      | none =>
        rw [hget, Option.getD_none, ← Value.toText_fails_iff] at h
        obtain ⟨e, h⟩ := h
        cases h
      | some v =>
        rw [hget] at h
        exact ⟨name, v, rfl, hget, h⟩
    · rintro ⟨name', v, heq, hget, hv⟩
      cases heq
      rwa [hget]

/-- A span of text is not written exactly if it refers to a value that cannot be. -/
theorem interpolate_fails_iff {entries : Entries Value} {t : Text} :
    (∃ e, interpolate entries t = .error e) ↔
      ∃ name v, RefersTo t name ∧ Entries.get? name entries = some v ∧ v.Unwritable := by
  simp only [interpolate, exists_congr fun _ => bind_pure_error_iff, mapM_fails_iff, Piece.written_fails_iff]
  constructor
  · rintro ⟨piece, hmem, name, v, rfl, hv⟩
    exact ⟨name, v, Piece.mem_ofText_iff.1 hmem, hv⟩
  · rintro ⟨name, v, href, hv⟩
    exact ⟨.reference name, Piece.mem_ofText_iff.2 href, name, v, rfl, hv⟩

/-- What keeps a span of text from being written is an integer that is too long, or an error that an object raises. -/
theorem unwritten_interpolate (entries : Entries Value) (t : Text) : FailsWith Obstacle.Unwritten (interpolate entries t) := by
  refine (FailsWith.mapM (fun piece => ?_) _).bind fun _ => .ok _
  cases piece with
  | literal t => exact .ok t
  | reference name => exact Value.unwritten_toText _

namespace Machine

variable {m : Machine}

/-- A run on tokens comes to text that is written and refers to a value that cannot be. -/
def ReachesUnwritable (m : Machine) (tokens : List Token) : Prop :=
  ∃ before o t after m', tokens = before ++ ⟨o, .text t⟩ :: after ∧ m.feed before = (m', none) ∧ m'.active = true ∧
    ∃ name v, RefersTo t name ∧ Entries.get? name m'.context = some v ∧ v.Unwritable

/-- A run on tokens comes to an expression the evaluation of which lets the error of an object pass. -/
def ReachesEscape (m : Machine) (tokens : List Token) : Prop :=
  ∃ before token after m' fault expression, tokens = before ++ token :: after ∧ m.feed before = (m', none) ∧
    m'.step token = .error (.evaluation fault expression) ∧ fault.escape?.isSome

/-- A run on tokens comes to text that is written and refers to a value with an integer that is too long. -/
def ReachesOverlong (m : Machine) (tokens : List Token) : Prop :=
  ∃ before o t after m', tokens = before ++ ⟨o, .text t⟩ :: after ∧ m.feed before = (m', none) ∧ m'.active = true ∧
    ∃ name v, RefersTo t name ∧ Entries.get? name m'.context = some v ∧ v.Overlong

/-- Where objects raise nothing, only an integer that is too long keeps a value from being written. -/
theorem reachesUnwritable_iff (h : ∀ e, ¬World.Raises e) {tokens : List Token} :
    m.ReachesUnwritable tokens ↔ m.ReachesOverlong tokens := by
  unfold ReachesUnwritable ReachesOverlong
  simp only [Value.unwritable_iff_overlong h]

/-- A run that comes to text that cannot be written fails there, with what keeps a value in it from being written. -/
theorem run_of_reachesUnwritable {tokens : List Token} (h : m.ReachesUnwritable tokens) :
    ∃ obstacle : Obstacle, obstacle.Unwritten ∧ (m.run tokens).2 = .error (.ofObstacle obstacle) := by
  obtain ⟨before, o, t, after, m', rfl, hbefore, ha, hv⟩ := h
  obtain ⟨obstacle, ht⟩ := interpolate_fails_iff.2 hv
  have hs : m'.step ⟨o, .text t⟩ = .error (.ofObstacle obstacle) := by
    simp only [step, ha, if_true, interpolate, ht]
    rfl
  refine ⟨obstacle, unwritten_interpolate _ _ obstacle ht, ?_⟩
  rw [run_of_failed (feed_eq_error_iff.2 ⟨before, _, after, rfl, hbefore, hs⟩)]

/-- A run that comes to an expression that lets an error pass fails there, with a failure of no kind. -/
theorem run_of_reachesEscape {tokens : List Token} (h : m.ReachesEscape tokens) :
    ∃ e : Failure, e.kind? = none ∧ (m.run tokens).2 = .error e := by
  obtain ⟨before, token, after, m', fault, expression, rfl, hbefore, hs, hescape⟩ := h
  refine ⟨.evaluation fault expression, if_pos hescape, ?_⟩
  rw [run_of_failed (feed_eq_error_iff.2 ⟨before, _, after, rfl, hbefore, hs⟩)]

/-- A token that fails with a failure of no kind is text that cannot be written, or has an expression that lets an error pass. -/
theorem unwritable_or_escape_of_fails {token : Token} {e : Failure} (h : m.Fails token e) (he : e.kind? = none) :
    (∃ o t, token = ⟨o, .text t⟩ ∧ m.active = true ∧
      ∃ name v, RefersTo t name ∧ Entries.get? name m.context = some v ∧ v.Unwritable) ∨
    ∃ fault expression, e = .evaluation fault expression ∧ fault.escape?.isSome := by
  have hescape : ∀ {fault expression}, (Failure.evaluation fault expression).kind? = none → fault.escape?.isSome := by
    intro fault expression hkind
    by_contra hnot
    simp [Failure.kind?, hnot] at hkind
  cases h with
  | writeLong ha ht | writeObject ha ht => exact .inl ⟨_, _, rfl, ha, interpolate_fails_iff.1 ⟨_, ht⟩⟩
  | assign | enter | tryBranch => exact .inr ⟨_, _, rfl, hescape he⟩
  | noAssignment | unmatched => cases he

/-- A run that fails with a failure of no kind comes to such text or to such an expression. -/
theorem reaches_of_run {tokens : List Token} {e : Failure} (h : (m.run tokens).2 = .error e) (he : e.kind? = none) :
    m.ReachesUnwritable tokens ∨ m.ReachesEscape tokens := by
  cases hf : m.feed tokens with
  | mk m' failure =>
    cases failure with
    | some failure =>
      rw [run_of_failed hf] at h
      obtain rfl : failure = e := Except.error.inj h
      obtain ⟨before, token, after, rfl, hbefore, hs⟩ := feed_eq_error_iff.1 hf
      rcases unwritable_or_escape_of_fails (fails_of_step hs) he with ⟨o, t, rfl, ha, hv⟩ | ⟨fault, expression, rfl, hescape⟩
      · exact .inl ⟨before, o, t, after, m', rfl, hbefore, ha, hv⟩
      · exact .inr ⟨before, token, after, m', fault, expression, rfl, hbefore, hs, hescape⟩
    | none =>
      -- At the end only a chain that is left open can fail, and that is a failure of a kind.
      rw [run_of_handled hf] at h
      unfold finish at h
      split at h
      · cases h
      · cases h
        cases he

/-- Where objects raise errors of the kinds that an evaluation catches only, no expression lets one pass. -/
theorem not_reachesEscape (h : World.Caught) {tokens : List Token} : ¬m.ReachesEscape tokens := by
  rintro ⟨before, token, after, m', fault, expression, -, -, hs, hescape⟩
  have hevaluate : ∀ {expression}, evaluate m'.context expression = .error fault → fault.escape? = none := fun hfault =>
    (failsWith_evaluate _ _ fault hfault).escape?_eq_none h
  have hnone : fault.escape? = none := by
    cases fails_of_step hs with
    | assign _ _ _ hfault =>
      obtain hfault | ⟨v, -, hfault⟩ := bind_error_iff.1 hfault
      · exact hevaluate hfault
      · unfold Value.stored at hfault
        split at hfault
        · split at hfault <;> cases hfault
          rfl
        · cases hfault
    | enter _ hfault => exact hevaluate hfault
    | tryBranch _ _ hfault => exact hevaluate hfault
  rw [hnone] at hescape
  cases hescape

end Machine

/-! ## Rendering -/

/-- The failures of rendering, for every template and every caller: each is of one of the four kinds, except where rendering comes to
text that is written and refers to a value that cannot be, or to an expression the evaluation of which lets the error of an object pass;
there it fails with one of no kind. Where objects raise nothing, such a failure is the one for an integer that is too long, and
rendering fails with it exactly if it comes to text that is written and refers to a value with such an integer in it. -/
theorem render_kind_iff (template : Text) (values : Entries Value) :
    ((∃ e, (render template values).result = .error e ∧ e.kind? = none) ↔
      ∃ tokens, Token.tokenize template = .ok tokens ∧
        ((Machine.start (.ofCaller values) template).ReachesUnwritable tokens ∨
          (Machine.start (.ofCaller values) template).ReachesEscape tokens)) ∧
    ((∀ e, ¬World.Raises e) →
      ((∃ e, (render template values).result = .error e ∧ e.kind? = none) ↔
        (render template values).result = .error (.tooManyDigits ⟨none⟩)) ∧
      ((render template values).result = .error (.tooManyDigits ⟨none⟩) ↔
        ∃ tokens, Token.tokenize template = .ok tokens ∧
          (Machine.start (.ofCaller values) template).ReachesOverlong tokens)) := by
  cases ht : Token.tokenize template with
  | error e =>
    rw [render_of_unterminated ht]
    have hkind : ¬∃ failure : Failure, Except.error (Failure.ofUnterminated template e) = Except.error (α := Text) failure ∧
        failure.kind? = none := by
      rintro ⟨failure, h, hkind⟩
      cases h
      cases hkind
    refine ⟨iff_of_false hkind nofun, fun _ => ⟨iff_of_false hkind nofun, iff_of_false nofun nofun⟩⟩
  | ok tokens =>
    rw [render_of_tokenize ht]
    have hreaches : (∃ e, ((Machine.start (.ofCaller values) template).run tokens).2 = .error e ∧ e.kind? = none) ↔
        (Machine.start (.ofCaller values) template).ReachesUnwritable tokens ∨
          (Machine.start (.ofCaller values) template).ReachesEscape tokens := by
      constructor
      · rintro ⟨e, h, hkind⟩
        exact Machine.reaches_of_run h hkind
      · rintro (h | h)
        · obtain ⟨obstacle, -, h⟩ := Machine.run_of_reachesUnwritable h
          exact ⟨_, h, by cases obstacle <;> rfl⟩
        · obtain ⟨e, hkind, h⟩ := Machine.run_of_reachesEscape h
          exact ⟨e, h, hkind⟩
    simp only [Except.ok.injEq, exists_eq_left']
    refine ⟨hreaches, fun hquiet => ?_⟩
    have hcaught : World.Caught := fun e he => absurd he (hquiet e)
    rw [or_iff_left (Machine.not_reachesEscape hcaught)] at hreaches
    have hlong : (∃ e, ((Machine.start (.ofCaller values) template).run tokens).2 = .error e ∧ e.kind? = none) ↔
        ((Machine.start (.ofCaller values) template).run tokens).2 = .error (.tooManyDigits ⟨none⟩) := by
      refine ⟨fun h => ?_, fun h => ⟨_, h, rfl⟩⟩
      obtain ⟨obstacle, hobstacle, h⟩ := Machine.run_of_reachesUnwritable (hreaches.1 h)
      cases obstacle with
      | tooManyDigits e =>
        cases hobstacle
        exact h
      | object e => exact absurd hobstacle (hquiet e)
    exact ⟨hlong, by rw [← hlong, hreaches, Machine.reachesUnwritable_iff hquiet]⟩

/-- A template that is one reference to a value of the caller's that holds an integer that is too long has no output. -/
theorem render_reference_overlong (hquiet : ∀ e, ¬World.Raises e) {v : Value} (h : v.Overlong) :
    (render "$x" [("x", v)]).result = .error (.tooManyDigits ⟨none⟩) := by
  have htokens : Token.scan 0 ['$', 'x'] = .ok [⟨0, .text ['$', 'x']⟩] :=
    Token.scan_cons_eq_ok_iff.2 ⟨.text ['$', 'x'], 1, [], rfl, by rw [List.drop_succ_cons, List.drop_nil, Token.scan], rfl⟩
  have htake : Text.takeName? "x" = some ("x".toList, []) := rfl
  have href : RefersTo "$x" "x" := refersTo_of_takeName? htake []
  have hget : Entries.get? "x" (Context.ofCaller [("x", v)]) = some v := by
    rw [Context.get?_ofCaller (by decide)]
    rfl
  rw [render_of_tokenize (show Token.tokenize "$x" = .ok [⟨0, .text "$x"⟩] from htokens)]
  have hreaches : (Machine.start (.ofCaller [("x", v)]) "$x").ReachesUnwritable [⟨0, .text "$x"⟩] :=
    ⟨[], 0, "$x", [], _, rfl, rfl, rfl, "x", v, href, hget, (Value.unwritable_iff_overlong hquiet v).2 h⟩
  obtain ⟨obstacle, hobstacle, hrun⟩ := Machine.run_of_reachesUnwritable hreaches
  cases obstacle with
  | tooManyDigits e =>
    cases hobstacle
    exact hrun
  | object e => exact absurd hobstacle (hquiet e)

end

open scoped World in
/-- The failures of rendering are not all of one of the four kinds: an integer of the caller's may be too long to be written, also where
objects raise nothing. -/
theorem render_overlong_integer :
    ¬∀ (template : Text) (values : Entries Value),
      (∃ t, (render template values).result = .ok t) ∨
        ∃ e kind, (render template values).result = .error e ∧ e.kind? = some kind := by
  intro hclosed
  have hlong : (Value.int (Binary64.tenTo digitLimit)).Overlong := .self (.int (Nat.le_of_eq (Int.natAbs_natCast _).symm))
  have hresult := render_reference_overlong World.not_raises_plain hlong
  obtain ⟨t, ht⟩ | ⟨e, kind, he, hkind⟩ := hclosed "$x" [("x", .int (Binary64.tenTo digitLimit))]
  · rw [hresult] at ht
    cases ht
  · rw [hresult] at he
    cases he
    cases hkind

end Stencil
