import Stencil.Proofs.Assignment
import Stencil.Proofs.Atomicity
import Stencil.Proofs.Lexeme

/-!
# What an assignment does

The body of an assignment is laid out in five parts around a dollar sign and an equals sign (`Assignment.Layout`), and there is one
layout at most (`Layout.unique`). A body without a layout is refused for its syntax; one with a layout changes the one entry that it
names, or fails and changes nothing; and where the machine is not active, nothing is looked at (`Machine.set_effect`).
-/

namespace Stencil

namespace Assignment

/-- A layout of a body: blanks, a dollar sign and a name, blanks, an equals sign, blanks, and an expression up to the end. -/
@[ext] structure Layout (body : Text) where
  /-- The blanks before the dollar sign. -/
  before : Text
  /-- The name after the dollar sign. -/
  name : Text
  /-- The blanks between the name and the equals sign. -/
  between : Text
  /-- The blanks after the equals sign. -/
  after : Text
  /-- The expression. -/
  expression : Text
  before_blank : before.Blank
  name_isName : Text.isName name = true
  between_blank : between.Blank
  after_blank : after.Blank
  /-- The expression starts with a character that is not blank. -/
  expression_starts : ∃ c ∈ expression.head?, Text.isBlank c = false
  /-- The parts and the two signs are the whole body. -/
  body_eq : body = before ++ '$' :: (name ++ (between ++ '=' :: (after ++ expression)))

variable {body : Text}

/-- A text starts with a character that is not blank exactly if there is something in it and no blank comes first. -/
theorem starts_iff {t : Text} : (∃ c ∈ t.head?, Text.isBlank c = false) ↔ t ≠ [] ∧ t.Unindented := by
  cases t with
  | nil => simp
  | cons c t => simp [Text.Unindented]

/-- A body is read as its layout says. -/
theorem ofBody?_of_layout (l : Layout body) : ofBody? body = some ⟨l.name, l.expression⟩ := by
  obtain ⟨hne, hu⟩ := starts_iff.1 l.expression_starts
  exact ofBody?_eq_some_iff.2 ⟨l.name_isName, hne, hu, l.before, l.between, l.after, l.before_blank, l.between_blank,
    l.after_blank, l.body_eq⟩

/-- A body that is read as an assignment has a layout. -/
theorem layout_of_ofBody? {a : Assignment} (h : ofBody? body = some a) :
    ∃ l : Layout body, l.name = a.name ∧ l.expression = a.expression := by
  obtain ⟨hn, hne, hu, before, between, after, hbefore, hbetween, hafter, heq⟩ := ofBody?_eq_some_iff.1 h
  have hstarts : ∃ c ∈ a.expression.head?, Text.isBlank c = false := starts_iff.2 ⟨hne, hu⟩
  exact ⟨⟨before, a.name, between, after, a.expression, hbefore, hn, hbetween, hafter, hstarts, heq⟩, rfl, rfl⟩

/-- A body without a layout is not read as an assignment. -/
theorem ofBody?_eq_none_iff : ofBody? body = none ↔ ¬Nonempty (Layout body) := by
  constructor
  · rintro h ⟨l⟩
    rw [ofBody?_of_layout l] at h
    cases h
  · intro h
    cases ha : ofBody? body with
    | none => rfl
    | some a =>
      obtain ⟨l, -⟩ := layout_of_ofBody? ha
      exact absurd ⟨l⟩ h

/-- Blanks before a character that is none end where that character stands. -/
theorem trimLeft_blanks {blanks t : Text} {c : Char} (hb : blanks.Blank) (hc : Text.isBlank c = false) :
    Text.trimLeft (blanks ++ c :: t) = c :: t :=
  Text.trimLeft_eq_iff.2 ⟨blanks, hb, rfl, fun d hd => by cases hd; exact hc⟩

/-- Blanks before a character that is none, and what follows it, can be told from the text. -/
theorem blanks_inj {blanks blanks' t t' : Text} {c c' : Char} (hb : blanks.Blank) (hb' : blanks'.Blank)
    (hc : Text.isBlank c = false) (hc' : Text.isBlank c' = false) (h : blanks ++ c :: t = blanks' ++ c' :: t') :
    blanks = blanks' ∧ t = t' := by
  have hrest : c :: t = c' :: t' := by rw [← trimLeft_blanks hb hc, h, trimLeft_blanks hb' hc']
  rw [hrest] at h
  exact ⟨List.append_cancel_right h, (List.cons.inj hrest).2⟩

/-- There is one layout of a body at most. -/
theorem Layout.unique (l l' : Layout body) : l = l' := by
  have heq := l.body_eq.symm.trans l'.body_eq
  obtain ⟨hbefore, heq⟩ := blanks_inj l.before_blank l'.before_blank rfl rfl heq
  have hread := Option.some.inj ((ofBody?_of_layout l).symm.trans (ofBody?_of_layout l'))
  obtain ⟨hname, hexpression⟩ := Assignment.mk.inj hread
  rw [hname] at heq
  obtain ⟨hbetween, heq⟩ := blanks_inj l.between_blank l'.between_blank rfl rfl (List.append_cancel_left heq)
  rw [hexpression] at heq
  exact Layout.ext hbefore hname hbetween (List.append_cancel_right heq) hexpression

end Assignment

namespace Machine

variable {m : Machine} {body : Text}

/-- An assignment to a name that is not reserved stores the value of its expression, if it has one that can be stored. -/
theorem step_set [World] {o : Nat} {name expression : Text} {value stored : Value} (ha : m.active = true)
    (hb : Assignment.ofBody? body = some ⟨name, expression⟩) (hn : name ≠ Context.reservedName)
    (hv : evaluate m.context expression = .ok value) (hs : value.stored = .ok stored) :
    m.step ⟨o, .set body⟩ = .ok { m with context := m.context.assign name stored } := by
  simp only [step, assign, ha, if_true, hb, if_neg hn]
  exact bind_ok_iff.2 ⟨value, mapError_ok_iff.2 hv, bind_ok_iff.2 ⟨stored, mapError_ok_iff.2 hs, rfl⟩⟩

/-- An assignment to a name that is not reserved fails if the value of its expression cannot be found or stored. -/
theorem step_set_error [World] {o : Nat} {name expression : Text} {fault : Fault} (ha : m.active = true)
    (hb : Assignment.ofBody? body = some ⟨name, expression⟩) (hn : name ≠ Context.reservedName)
    (h : evaluate m.context expression >>= Value.stored = .error fault) :
    m.step ⟨o, .set body⟩ = .error (.evaluation fault (some expression)) := by
  simp only [step, assign, ha, if_true, hb, if_neg hn]
  obtain hv | ⟨value, hv, hs⟩ := bind_error_iff.1 h
  · exact bind_error_iff.2 (.inl (mapError_error_iff.2 ⟨fault, hv, rfl⟩))
  · refine bind_error_iff.2 (.inr ⟨value, mapError_ok_iff.2 hv, bind_error_iff.2 (.inl ?_)⟩)
    exact mapError_error_iff.2 ⟨fault, hs, rfl⟩

/-- An assignment fails for its syntax exactly if its body has no layout. -/
theorem directiveSyntax_iff [World] {o : Nat} (ha : m.active = true) :
    (∃ e m', (InPlace.handle ⟨o, .set body⟩).run m = .error e m' ∧ e.kind? = some .directiveSyntax) ↔
      ¬Nonempty (Assignment.Layout body) := by
  rw [← Assignment.ofBody?_eq_none_iff, InPlace.run_handle]
  constructor
  · rintro ⟨e, m', h, hkind⟩
    cases hs : m.step ⟨o, .set body⟩ with
    | ok next =>
      rw [hs] at h
      cases h
    | error e' =>
      rw [hs] at h
      cases h
      cases fails_of_step hs with
      | noAssignment _ hb => exact hb
      | assign => cases Failure.eq_evaluation_of_kind? hkind
      | unmatched _ hdirective => cases hdirective
  · intro hb
    have hs : m.step ⟨o, .set body⟩ = .error (.noAssignment body (.ofOffset m.template o)) := by
      simp only [step, assign, ha, if_true, hb]
    exact ⟨_, m, by rw [hs]; rfl, rfl⟩

/-- What an assignment does, for every body and in every state. Where the machine is active: it is refused for its syntax exactly if
its body has no layout; there is one layout at most; and if the name is not reserved, the expression, which goes up to the end of the
body, is evaluated in the current context. If there is a value and it can be stored, it is under the name afterwards, and all other
entries, the frames and the output are as they were; otherwise the failure names the expression, and nothing has changed. Where the
machine is not active, nothing is done. -/
theorem set_effect [World] (m : Machine) (o : Nat) (body : Text) :
    (m.active = true →
      ((∃ e m', (InPlace.handle ⟨o, .set body⟩).run m = .error e m' ∧ e.kind? = some .directiveSyntax) ↔
        ¬Nonempty (Assignment.Layout body)) ∧
      (∀ l l' : Assignment.Layout body, l = l') ∧
      ∀ l : Assignment.Layout body, l.name ≠ Context.reservedName →
        (∀ value stored, evaluate m.context l.expression = .ok value → value.stored = .ok stored →
          ∃ context, (InPlace.handle ⟨o, .set body⟩).run m = .ok () { m with context := context } ∧
            Entries.get? l.name context = some stored ∧
            ∀ other, other ≠ l.name → Entries.get? other context = Entries.get? other m.context) ∧
        ∀ fault, evaluate m.context l.expression >>= Value.stored = .error fault →
          (InPlace.handle ⟨o, .set body⟩).run m = .error (.evaluation fault (some l.expression)) m) ∧
    (m.active = false → (InPlace.handle ⟨o, .set body⟩).run m = .ok () m) := by
  refine ⟨fun ha => ⟨directiveSyntax_iff ha, Assignment.Layout.unique, fun l hn => ⟨?_, ?_⟩⟩, fun ha => ?_⟩
  · intro value stored hv hs
    refine ⟨m.context.assign l.name stored, ?_, Context.get?_assign_self hn stored m.context, fun other hother => ?_⟩
    · rw [InPlace.run_handle, step_set ha (Assignment.ofBody?_of_layout l) hn hv hs]
      rfl
    · exact Context.get?_assign_of_ne hother stored m.context
  · intro fault h
    rw [InPlace.run_handle, step_set_error ha (Assignment.ofBody?_of_layout l) hn h]
    rfl
  · rw [InPlace.run_handle, step_set_of_inactive ha]
    rfl

open scoped World in
/-- An assignment with a line break behind its expression, one whose expression has no value, one without an expression, and one
in a branch that is not taken. -/
theorem set_effect_line_break :
    let m := start Context.builtins []
    let skipping : Machine := { m with frames := [⟨true, false, false, 0⟩] }
    (m.active = true ∧ evaluate m.context ['t', 'r', 'u', 'e', '\n'] = .ok (.bool true) ∧
      ∃ context, (InPlace.handle ⟨0, .set "\n$a= true\n".toList⟩).run m = .ok () { m with context := context } ∧
        Entries.get? "a".toList context = some (.bool true) ∧ Context.reservedName ≠ "a".toList ∧
        Entries.get? Context.reservedName context = some (.library .integer)) ∧
    (evaluate m.context "b".toList >>= Value.stored = .error (.unknownName "b".toList) ∧
      (InPlace.handle ⟨0, .set "$a=b".toList⟩).run m = .error (.evaluation (.unknownName "b".toList) (some "b".toList)) m) ∧
    (¬Nonempty (Assignment.Layout "$a= ".toList) ∧
      ∃ e m', (InPlace.handle ⟨0, .set "$a= ".toList⟩).run m = .error e m' ∧ e.kind? = some .directiveSyntax) ∧
    skipping.active = false ∧ (InPlace.handle ⟨0, .set "$a= ".toList⟩).run skipping = .ok () skipping := by
  intro m skipping
  have hscan : Lexeme.scan 0 ['t', 'r', 'u', 'e', '\n'] = .ok [⟨.name, "true".toList, 0⟩] := by
    rw [Lexeme.scan_cons (n := 3) (k := .name) rfl rfl, List.drop_succ_cons, List.drop_succ_cons, List.drop_succ_cons,
      List.drop_zero, Lexeme.scan_cons_eq_ok_iff.2 (.inl ⟨rfl, by rw [Lexeme.scan]⟩)]
    rfl
  have hparse : Expr.parse ['t', 'r', 'u', 'e', '\n'] = .ok (.literal (.bool true)) :=
    (Expr.parse_eq_ok_iff hscan _).2 (.expression (.ofPrimary (.keyword rfl (by decide))))
  have hvalue : evaluate m.context ['t', 'r', 'u', 'e', '\n'] = .ok (.bool true) := by
    unfold evaluate
    rw [hparse]
    rfl
  have hname : Expr.parse ['b'] = .ok (.name ['b']) :=
    (Expr.parse_eq_ok_iff (Lexeme.scan_single rfl rfl) _).2
      (.expression (.ofPrimary (.name (l := ⟨.name, ['b'], 0⟩) rfl fun value h => by simp [Expr.keywords] at h)))
  have hfault : evaluate m.context ['b'] >>= Value.stored = .error (.unknownName ['b']) := by
    unfold evaluate
    rw [hname]
    rfl
  let l : Assignment.Layout "\n$a= true\n".toList :=
    ⟨['\n'], ['a'], [], [' '], ['t', 'r', 'u', 'e', '\n'], by decide, rfl, by decide, by decide, ⟨_, rfl, rfl⟩, rfl⟩
  let l' : Assignment.Layout "$a=b".toList :=
    ⟨[], ['a'], [], [], ['b'], by decide, rfl, by decide, by decide, ⟨_, rfl, rfl⟩, rfl⟩
  obtain ⟨context, hrun, hget, hothers⟩ :=
    (((set_effect m 0 _).1 rfl).2.2 l (by decide)).1 (.bool true) (.bool true) hvalue rfl
  have hreserved : Context.reservedName ≠ "a".toList := by decide
  have hnone : ¬Nonempty (Assignment.Layout "$a= ".toList) := Assignment.ofBody?_eq_none_iff.1 rfl
  exact ⟨⟨rfl, hvalue, context, hrun, hget, hreserved, (hothers _ hreserved).trans rfl⟩,
    ⟨hfault, (((set_effect m 0 _).1 rfl).2.2 l' (by decide)).2 _ hfault⟩, ⟨hnone, ((set_effect m 0 _).1 rfl).1.2 hnone⟩,
    rfl, (set_effect skipping 0 _).2 rfl⟩

end Machine

end Stencil
