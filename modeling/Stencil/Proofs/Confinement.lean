import Stencil.Proofs.Grammar.Parse
import Stencil.Proofs.Run
import Stencil.Render.Basic

/-!
# What expressions can come by

An expression cannot make a list, a mapping, another object or a function of its own. Whatever it evaluates to is a null, a truth
value, a number or a text, or is builtin, or is an object that the caller gave, directly or inside of mappings (`Confined`). Every
operator, every builtin function and every look-up keeps to these values, so assignments store nothing else, and the same holds of
all values that a run ever holds (`run_confined`). The one exception would be equality: it gives what an object of the caller's
answers, so it is asked of objects that this is a truth value (`World.AnswersTruth`).
-/

namespace Stencil

namespace Value

/-- A null, a truth value, a number or a text. -/
def IsScalar : Value → Prop
  | null | bool _ | number _ | text _ => True
  | list .. | mapping .. | moment _ | host .. | library _ | builtin _ => False

/-- An object that only a caller can give. -/
def IsObject : Value → Prop
  | list .. | mapping .. | moment _ | host .. => True
  | null | bool _ | number _ | text _ | library _ | builtin _ => False

/-- The builtin values: the two libraries, their members, and the two functions with names of their own. -/
def builtins : List Value :=
  library .integer :: library .math :: builtin .number :: builtin .parseInt ::
    (Library.integer.members ++ Library.math.members).map fun entry => builtin entry.2

theorem library_mem_builtins (l : Library) : library l ∈ builtins := by
  cases l <;> simp [builtins]

/-- Every function is builtin. -/
theorem builtin_mem_builtins (f : Builtin) : builtin f ∈ builtins := by
  cases f with
  | parseInt => simp [builtins]
  | number => simp [builtins]
  | integerParseInt => simp [builtins, Library.members]
  | math f => cases f <;> simp [builtins, Library.members]

/-- What a bare name stands for is builtin. -/
theorem mem_builtins_of_ofGlobal? {name : Text} {v : Value} (h : ofGlobal? name = some v) : v ∈ builtins := by
  unfold ofGlobal? at h
  split at h
  · cases h
    exact library_mem_builtins _
  · split at h
    · cases h
      exact builtin_mem_builtins _
    · split at h
      · cases h
        exact builtin_mem_builtins _
      · cases h

theorem isScalar_of_map {α ε : Type} {f : α → Value} {result : Except ε α} {w : Value} (h : f <$> result = .ok w)
    (hf : ∀ a, (f a).IsScalar) : w.IsScalar := by
  obtain ⟨a, -, rfl⟩ := map_ok_iff.1 h
  exact hf a

section

variable [World]

/-- A value that a caller gave: an entry, or what is under a key of a mapping that the caller gave. -/
inductive Supplied (caller : Entries Value) : Value → Prop
  | entry {name : Text} {v : Value} : (name, v) ∈ caller → Supplied caller v
  | member {names : Names} {values : Fin names.count → Nat × Value} {key : Text} {v : Value} :
      Supplied caller (mapping names values) → Entries.get? key (entries names values) = some v → Supplied caller v
  | got {i : Nat} {get : Text → Except ObjectError Value} {key : Text} {v : Value} :
      Supplied caller (host i) → World.get? i = some get → get key = .ok v → Supplied caller v

/-- A value that a template of the caller's can come by. -/
inductive Confined (caller : Entries Value) (v : Value) : Prop
  | scalar : v.IsScalar → Confined caller v
  | builtin : v ∈ builtins → Confined caller v
  | object : v.IsObject → Supplied caller v → Confined caller v

variable {caller : Entries Value} {v w : Value}

/-- What a caller gave is confined. -/
theorem Supplied.confined (h : Supplied caller v) : Confined caller v := by
  cases v with
  | null | bool | number | text => exact .scalar trivial
  | list | mapping | moment | host => exact .object trivial h
  | library l => exact .builtin (library_mem_builtins l)
  | builtin f => exact .builtin (builtin_mem_builtins f)

/-- An object that a template can come by is the caller's. -/
theorem Confined.supplied (h : Confined caller v) (hv : v.IsObject) : Supplied caller v := by
  cases h with
  | scalar hs => cases v <;> first | exact absurd hs id | exact absurd hv id
  | builtin hb =>
    simp only [builtins, List.mem_cons, List.mem_map] at hb
    rcases hb with rfl | rfl | rfl | rfl | ⟨entry, -, rfl⟩ <;> exact absurd hv id
  | object _ hs => exact hs

/-- Reading a number from a text keeps a value confined. -/
theorem Confined.coerced (h : Confined caller v) (hw : v.coerced = .ok w) : Confined caller w := by
  unfold Value.coerced at hw
  split at hw
  · obtain ⟨n, -, hw⟩ := bind_ok_iff.1 hw
    split at hw <;> cases hw <;> exact .scalar trivial
  · cases hw
    exact h

/-- What is stored of a confined value is confined. -/
theorem Confined.stored (h : Confined caller v) (hw : v.stored = .ok w) : Confined caller w := by
  unfold Value.stored at hw
  split at hw
  · split at hw
    · cases hw
      exact .scalar trivial
    · cases hw
  · cases hw
    exact h

/-- A look-up gives nothing but confined values where there are no others. -/
theorem lookup_confined {entries : Entries Value} {key : Text}
    (h : ∀ v, Entries.get? key entries = some v → Confined caller v) (hw : lookup key entries = .ok w) :
    Confined caller w := by
  rw [lookup, Fault.ofDigits, mapError_ok_iff] at hw
  cases hg : Entries.get? key entries with
  | none =>
    rw [hg] at hw
    exact (Confined.scalar trivial : Confined caller null).coerced hw
  | some v =>
    rw [hg] at hw
    exact (h v hg).coerced hw

/-- A member of a confined value is confined. -/
theorem Confined.member {key : Text} (h : Confined caller v) (hw : v.member key = .ok w) : Confined caller w := by
  unfold Value.member at hw
  split at hw
  · split at hw
    · cases hw
      exact .builtin (builtin_mem_builtins _)
    · cases hw
  · exact lookup_confined (fun u hu => ((h.supplied trivial).member hu).confined) hw
  · split at hw
    · rename_i get hget
      obtain ⟨u, hu, hw⟩ := bind_ok_iff.1 hw
      rw [Fault.ofObject, mapError_ok_iff] at hu
      rw [Fault.ofDigits, mapError_ok_iff] at hw
      exact ((h.supplied trivial).got hget hu).confined.coerced hw
    · cases hw
  · cases hw

/-! ## Answers of objects -/

theorem isScalar_of_askInTurn (h : World.AnswersTruth) {i j : Nat} (hw : askInTurn i j = .ok w) : w.IsScalar := by
  obtain ⟨answer?, hanswer, hw⟩ := bind_ok_iff.1 hw
  cases answer? with
  | some answer =>
    obtain ⟨b, rfl⟩ := h _ _ _ hanswer
    cases hw
    trivial
  | none =>
    obtain ⟨answer?, hanswer, hw⟩ := bind_ok_iff.1 hw
    cases hw
    cases answer? with
    | some answer =>
      obtain ⟨b, rfl⟩ := h _ _ _ hanswer
      trivial
    | none => trivial

theorem isScalar_of_compareObjects (h : World.AnswersTruth) {i j : Nat} (hw : compareObjects i j = .ok w) : w.IsScalar := by
  unfold compareObjects at hw
  split at hw <;> exact isScalar_of_askInTurn h hw

theorem isScalar_of_compareObject (h : World.AnswersTruth) {i : Nat} (hw : compareObject i v = .ok w) : w.IsScalar := by
  obtain ⟨answer?, hanswer, hw⟩ := bind_ok_iff.1 hw
  cases hw
  cases answer? with
  | some answer =>
    obtain ⟨b, rfl⟩ := h _ _ _ hanswer
    trivial
  | none => trivial

/-- Where objects answer with truth values, comparing two values gives a truth value. -/
theorem isScalar_of_compared (h : World.AnswersTruth) {u : Value} (hw : compared u v = .ok w) : w.IsScalar := by
  unfold compared at hw
  split at hw
  · exact isScalar_of_compareObjects h hw
  · exact isScalar_of_compareObject h hw
  · exact isScalar_of_compareObject h hw
  · split at hw
    · exact isScalar_of_map hw fun _ => trivial
    · cases hw
      trivial
  · split at hw
    · exact isScalar_of_map hw fun _ => trivial
    · cases hw
      trivial
  · cases hw
    trivial

/-- Where objects answer with truth values, the equality of expressions gives a truth value. -/
theorem isScalar_of_looselyEquals (h : World.AnswersTruth) {u : Value} (hw : u.looselyEquals v = .ok w) : w.IsScalar := by
  unfold looselyEquals at hw
  split at hw
  · cases hw
    trivial
  · cases hw
    trivial
  · cases hw
    trivial
  · obtain ⟨n?, -, hw⟩ := bind_ok_iff.1 hw
    cases n? <;> cases hw <;> trivial
  · obtain ⟨n?, -, hw⟩ := bind_ok_iff.1 hw
    cases n? <;> cases hw <;> trivial
  · rw [Obstacle.ofObject, mapError_ok_iff] at hw
    exact isScalar_of_compared h hw

end

end Value

open Value

/-! ## Operators and functions -/

/-- An operator in front of an operand gives a truth value or a number. -/
theorem UnaryOp.isScalar_of_apply {op : UnaryOp} {v w : Value} (h : op.apply v = .ok w) : w.IsScalar := by
  cases op with
  | not =>
    cases h
    trivial
  | negate =>
    obtain ⟨n, -, h⟩ := bind_ok_iff.1 h
    cases h
    trivial

/-- A calculation gives a number. -/
theorem BinaryOp.isScalar_of_calculate {op : BinaryOp} {calculation : Number → Number → Except Number.Fault Number}
    {u v w : Value} (h : op.calculate calculation u v = .ok w) : w.IsScalar := by
  obtain ⟨m, -, h⟩ := bind_ok_iff.1 h
  obtain ⟨n, -, h⟩ := bind_ok_iff.1 h
  obtain ⟨k, -, h⟩ := bind_ok_iff.1 h
  cases h
  trivial

/-- A comparison gives a truth value. -/
theorem BinaryOp.isScalar_of_compare {texts : Text → Text → Bool} {numbers : Number → Number → Bool} {u v w : Value}
    (h : BinaryOp.compare texts numbers u v = .ok w) : w.IsScalar := by
  obtain ⟨b, -, h⟩ := bind_ok_iff.1 h
  cases h
  trivial

/-- Where objects answer with truth values, an operator on two values gives a truth value, a number or a text. -/
theorem BinaryOp.isScalar_of_apply [World] (hanswers : World.AnswersTruth) {op : BinaryOp} {u v w : Value}
    (h : op.apply u v = .ok w) : w.IsScalar := by
  cases op with
  | equal =>
    simp only [apply, Fault.ofObstacle, mapError_ok_iff] at h
    exact isScalar_of_looselyEquals hanswers h
  | notEqual =>
    obtain ⟨answer, -, h⟩ := bind_ok_iff.1 h
    obtain ⟨b, -, h⟩ := bind_ok_iff.1 h
    cases h
    trivial
  | less => exact isScalar_of_compare h
  | lessEqual => exact isScalar_of_compare h
  | greater => exact isScalar_of_compare h
  | greaterEqual => exact isScalar_of_compare h
  | add =>
    simp only [apply] at h
    split at h
    · obtain ⟨s, -, h⟩ := bind_ok_iff.1 h
      obtain ⟨t, -, h⟩ := bind_ok_iff.1 h
      cases h
      trivial
    · exact isScalar_of_calculate h
  | subtract => exact isScalar_of_calculate h
  | multiply => exact isScalar_of_calculate h
  | divide => exact isScalar_of_calculate h
  | remainder => exact isScalar_of_calculate h

/-- A function of one number gives a number. -/
theorem MathFunction.isScalar_of_applyOne {f : MathFunction} {n : Number} {w : Value} (h : f.applyOne n = .ok w) :
    w.IsScalar := by
  cases f with
  | abs =>
    cases h
    trivial
  | ceil => exact isScalar_of_map h fun _ => trivial
  | floor => exact isScalar_of_map h fun _ => trivial
  | round => exact isScalar_of_map h fun _ => trivial
  | sqrt => exact isScalar_of_map h fun _ => trivial
  | trunc => exact isScalar_of_map h fun _ => trivial
  | max => cases h
  | min => cases h
  | pow => cases h

/-- The choice of one of several arguments gives a number. -/
theorem MathFunction.isScalar_of_choose {f : MathFunction} {better : Number → Number → Number} {arguments : List Value}
    {w : Value} (h : f.choose better arguments = .ok w) : w.IsScalar := by
  unfold choose at h
  split at h
  · cases h
  · obtain ⟨numbers, -, h⟩ := bind_ok_iff.1 h
    split at h <;> cases h
    trivial

/-- A mathematical function gives a number. -/
theorem MathFunction.isScalar_of_apply {f : MathFunction} {arguments : List Value} {w : Value}
    (h : f.apply arguments = .ok w) : w.IsScalar := by
  unfold apply at h
  split at h
  · exact isScalar_of_choose h
  · exact isScalar_of_choose h
  · obtain ⟨numbers, -, h⟩ := bind_ok_iff.1 h
    split at h
    · exact isScalar_of_map h fun _ => trivial
    · cases h
  · cases h
  · obtain ⟨numbers, -, h⟩ := bind_ok_iff.1 h
    split at h
    · exact isScalar_of_applyOne h
    · cases h
  · cases h

/-- A builtin function gives a number. -/
theorem Builtin.isScalar_of_apply [World] {f : Builtin} {arguments : List Value} {w : Value}
    (h : f.apply arguments = .ok w) : w.IsScalar := by
  unfold apply at h
  split at h
  · exact isScalar_of_map h fun _ => trivial
  · exact isScalar_of_map h fun _ => trivial
  · exact isScalar_of_map h fun _ => trivial
  · exact MathFunction.isScalar_of_apply h
  · cases h

/-- Only a builtin function can be called. -/
theorem Value.call_eq_ok_iff [World] {callee : Value} {arguments : List Value} {w : Value} :
    callee.call arguments = .ok w ↔ ∃ f, callee = .builtin f ∧ f.apply arguments = .ok w := by
  cases callee with
  | builtin f => simp [Value.call]
  | _ => simp [Value.call]

/-! ## Expressions -/

section

variable [World]

/-- An expression evaluates to a confined value where the context holds no others, and objects answer with truth values. -/
theorem Expr.eval_confined (hanswers : World.AnswersTruth) {caller context : Entries Value}
    (h : ∀ name v, Entries.get? name context = some v → Confined caller v) :
    (e : Expr) → {v : Value} → e.eval context = .ok v → Confined caller v
  | .literal value, v, he => by
    rw [eval] at he
    cases he
    exact .scalar (by cases value <;> trivial)
  | .var key, v, he => lookup_confined (h key) he
  | .name key, v, he => by
    rw [eval] at he
    split at he
    · rename_i u hu
      cases he
      exact .builtin (mem_builtins_of_ofGlobal? hu)
    · cases he
  | .member target key, v, he => by
    rw [eval] at he
    obtain ⟨t, ht, he⟩ := bind_ok_iff.1 he
    exact (eval_confined hanswers h target ht).member he
  | .call callee arguments, v, he => by
    rw [eval] at he
    obtain ⟨c, -, he⟩ := bind_ok_iff.1 he
    obtain ⟨given, -, he⟩ := bind_ok_iff.1 he
    obtain ⟨f, -, hf⟩ := call_eq_ok_iff.1 he
    exact .scalar (Builtin.isScalar_of_apply hf)
  | .unary op operand, v, he => by
    rw [eval] at he
    obtain ⟨u, -, he⟩ := bind_ok_iff.1 he
    exact .scalar (UnaryOp.isScalar_of_apply he)
  | .binary op left right, v, he => by
    rw [eval] at he
    obtain ⟨u, -, he⟩ := bind_ok_iff.1 he
    obtain ⟨u', -, he⟩ := bind_ok_iff.1 he
    exact .scalar (BinaryOp.isScalar_of_apply hanswers he)
  | .logical .and left right, v, he => by
    rw [eval] at he
    obtain ⟨u, hu, he⟩ := bind_ok_iff.1 he
    split at he
    · exact eval_confined hanswers h right he
    · cases he
      exact eval_confined hanswers h left hu
  | .logical .or left right, v, he => by
    rw [eval] at he
    obtain ⟨u, hu, he⟩ := bind_ok_iff.1 he
    split at he
    · cases he
      exact eval_confined hanswers h left hu
    · exact eval_confined hanswers h right he

/-! ## Runs -/

/-- A context that holds confined values only. -/
def Context.Confined (caller : Entries Value) (context : Context) : Prop := ∀ entry ∈ context, entry.2.Confined caller

namespace Context

variable {caller : Entries Value} {context : Context}

theorem Confined.get? (h : context.Confined caller) (name : Text) (v : Value)
    (hv : Entries.get? name context = some v) : v.Confined caller :=
  h _ (Entries.mem_of_get?_eq_some hv)

/-- A context of confined values holds such values only after another one has been stored in it. -/
theorem Confined.assign (h : context.Confined caller) {value : Value} (hv : value.Confined caller) (name : Text) :
    Context.Confined caller (context.assign name value) := by
  unfold Context.assign
  split
  · exact h
  · intro entry hentry
    rcases Entries.mem_insert hentry with rfl | hold
    · exact hv
    · exact h entry hold

end Context

namespace Machine

variable {caller : Entries Value} {m m' : Machine}

/-- An expression given as a text evaluates to a confined value. -/
theorem eval_confined (hanswers : World.AnswersTruth) (h : m.context.Confined caller) {expression : Text} {v : Value}
    (hv : m.eval expression = .ok v) : v.Confined caller := by
  unfold eval evaluate at hv
  rw [mapError_ok_iff] at hv
  obtain ⟨e, -, he⟩ := bind_ok_iff.1 hv
  exact Expr.eval_confined hanswers h.get? e he

end Machine

end

end Stencil
