import Stencil.Proofs.Interpolation
import Stencil.Proofs.Partition.Seam
import Stencil.Proofs.Run
import Stencil.Render.Basic

/-!
# Templates without directives

A template in which no directive starts is split at each `#` nevertheless, and its spans are interpolated one by one. No reference
is cut by that, so rendering such a template is interpolating it as a whole (`render_of_directiveFree`).
-/

namespace Stencil

/-- No directive starts anywhere in a text. -/
def DirectiveFree (t : Text) : Prop := ∀ s, s <:+ t → ¬ StartsDirective s

/-- No directive starts at the first character, and none after it. -/
theorem directiveFree_cons_iff {c : Char} {t : Text} :
    DirectiveFree (c :: t) ↔ ¬ StartsDirective (c :: t) ∧ DirectiveFree t := by
  constructor
  · intro h
    exact ⟨h _ List.suffix_rfl, fun s hs => h s (hs.trans (List.suffix_cons c t))⟩
  · rintro ⟨hc, h⟩ s hs
    rcases List.suffix_cons_iff.1 hs with rfl | hs
    · exact hc
    · exact h s hs

theorem DirectiveFree.of_append {s t : Text} (h : DirectiveFree (s ++ t)) : DirectiveFree t :=
  fun u hu => h u (hu.trans (List.suffix_append s t))

instance : DecidablePred StartsDirective
  | [] => isFalse (by simp [StartsDirective, Opens])
  | c :: t =>
    have hiff : (c = '#' ∧ ¬ (Opener.ofHead? t = none ∧ "else".toList.isPrefixOf t = false ∧
        "end".toList.isPrefixOf t = false)) ↔ StartsDirective (c :: t) := by
      constructor
      · rintro ⟨rfl, h⟩
        exact Classical.not_not.1 (mt Token.not_startsDirective_iff.1 h)
      · intro h
        obtain ⟨rfl, -⟩ := startsDirective_iff.1 h
        exact ⟨rfl, fun hno => Token.not_startsDirective_iff.2 hno h⟩
    decidable_of_iff _ hiff

instance decidableDirectiveFree : DecidablePred DirectiveFree
  | [] => isTrue fun s hs => by
    rw [List.suffix_nil.1 hs]
    decide
  | c :: t =>
    have := decidableDirectiveFree t
    decidable_of_iff _ directiveFree_cons_iff.symm

/-! ## Spans of text -/

namespace Token

/-- Where no directive starts, a span of text does. -/
theorem start_of_not_startsDirective {c : Char} {rest : Text} (h : ¬ StartsDirective (c :: rest)) :
    ∃ used next, rest = used ++ next ∧ start c rest = .ok (.text (c :: used), used.length) := by
  unfold start
  by_cases hc : c = '#'
  · subst hc
    obtain ⟨hhead, helse, hend⟩ := not_startsDirective_iff.1 h
    refine ⟨[], rest, rfl, ?_⟩
    simp only [if_true, hhead, helse, hend, Bool.false_eq_true, if_false, List.length_nil]
  · refine ⟨rest.takeWhile (· ≠ '#'), rest.dropWhile (· ≠ '#'), List.takeWhile_append_dropWhile.symm, ?_⟩
    rw [if_neg hc]

/-- A span of text is not cut in the middle of a reference: it goes up to a `#`, or it is one. -/
theorem Form.Canonical.not_cutsReference {t here next : Text} (h : (Form.text t).Canonical here next) :
    ¬ CutsReference t next := by
  rcases h with ⟨-, hnext⟩ | ⟨rfl, -⟩
  · refine not_cutsReference_of_head fun c hc => ?_
    rw [hnext c hc]
    decide
  · exact not_cutsReference_of_notMem (by decide)

/-- A text without directives is split into spans of text, and interpolating these in turn is interpolating the whole. By
induction on how much of the text is left. -/
theorem scan_of_directiveFree [World] {o : Nat} {t : Text} (h : DirectiveFree t) :
    ∃ (tokens : List Token) (spans : List Text), scan o t = .ok tokens ∧ tokens.map (·.form) = spans.map .text ∧
      spans.flatten = t ∧ ∀ entries, eachInTurn (interpolate entries) spans = interpolate entries t := by
  induction hlen : t.length using Nat.strongRecOn generalizing o t with
  | _ n ih =>
  cases t with
  | nil => exact ⟨[], [], by rw [scan], rfl, rfl, fun entries => interpolate_nil.symm⟩
  | cons c rest =>
    obtain ⟨used, next, rfl, hstart⟩ := start_of_not_startsDirective (directiveFree_cons_iff.1 h).1
    have hnext : DirectiveFree next := DirectiveFree.of_append (show DirectiveFree ((c :: used) ++ next) from h)
    rw [List.length_cons, List.length_append] at hlen
    obtain ⟨tokens, spans, hscan, hforms, hflatten, hwritten⟩ := ih next.length (by omega) (o := o + 1 + used.length) hnext rfl
    refine ⟨⟨o, .text (c :: used)⟩ :: tokens, (c :: used) :: spans, ?_, ?_, ?_, fun entries => ?_⟩
    · exact scan_cons_eq_ok_iff.2 ⟨_, _, tokens, hstart, by rw [List.drop_left]; exact hscan, rfl⟩
    · rw [List.map_cons, hforms, List.map_cons]
    · rw [List.flatten_cons, hflatten, List.cons_append]
    · have hcut : ¬ CutsReference (c :: used) next := by
        obtain ⟨used', next', heq, hlength, -, hcanonical⟩ := source_of_start hstart
        obtain ⟨rfl, rfl⟩ := List.append_inj heq hlength
        exact hcanonical.not_cutsReference
      rw [eachInTurn_cons, hwritten, ← interpolate_append hcut, List.cons_append]

end Token

/-! ## Rendering -/

/-- A run on spans of text, from a machine without open chains, adds to the output what interpolation writes for them in turn. -/
theorem Machine.run_spans [World] {m : Machine} (hm : m.frames = []) {tokens : List Token} {spans : List Text}
    (h : tokens.map (·.form) = spans.map .text) :
    (m.run tokens).2 =
      (inTurn (.ok m.output.flatten) (eachInTurn (Stencil.interpolate m.context) spans)).mapError .ofObstacle := by
  induction spans generalizing m tokens with
  | nil =>
    obtain rfl := List.map_eq_nil_iff.1 h
    have hrun : (m.run []).2 = .ok m.output.flatten := by
      simp only [run, feed, finish, hm]
    have hnone : inTurn (.ok m.output.flatten) (.ok []) = .ok m.output.flatten :=
      congrArg Except.ok (List.append_nil _)
    exact hrun.trans (congrArg (Except.mapError Failure.ofObstacle) hnone.symm)
  | cons t spans ih =>
    obtain ⟨⟨o, form⟩, tokens, rfl, rfl, hrest⟩ := List.map_eq_cons_iff.1 h
    have hs : m.step ⟨o, .text t⟩ =
        m.interpolate t >>= fun fragment => .ok { m with output := m.output ++ [fragment] } := by
      simp only [step, active, hm, if_true]
      rfl
    rw [Machine.interpolate] at hs
    rw [eachInTurn_cons]
    cases hi : Stencil.interpolate m.context t with
    | error e =>
      rw [hi] at hs
      rw [run_cons_error hs]
      rfl
    | ok fragment =>
      rw [hi] at hs
      have hjoin : inTurn (.ok m.output.flatten) (.ok fragment) = .ok (m.output ++ [fragment]).flatten := by
        rw [List.flatten_append, List.flatten_singleton]
        rfl
      have hnext := @ih { m with output := m.output ++ [fragment] } hm tokens hrest
      rw [run_cons hs, ← inTurn_assoc, hjoin]
      exact hnext

/-- A template without directives is split into spans of text, which together are the template; interpolating them in turn is
interpolating it as a whole, and that is what rendering it gives, for every caller: the same text, or the failure of a value that
is too long to be written. -/
theorem render_of_directiveFree [World] {t : Text} (h : DirectiveFree t) (values : Entries Value) :
    (∃ tokens spans, Token.tokenize t = .ok tokens ∧ tokens.map (·.form) = spans.map .text ∧ spans.flatten = t ∧
      ∀ entries, eachInTurn (interpolate entries) spans = interpolate entries t) ∧
    (render t values).result = (interpolate (Context.ofCaller values) t).mapError .ofObstacle := by
  obtain ⟨tokens, spans, htokens, hforms, hflatten, hwritten⟩ := Token.scan_of_directiveFree (o := 0) h
  refine ⟨⟨tokens, spans, htokens, hforms, hflatten, hwritten⟩, ?_⟩
  rw [render_of_tokenize htokens, Machine.run_spans rfl hforms, ← hwritten]
  exact congrArg _ (inTurn_nil _)

open scoped World in
/-- A template in which a `#` stands before and after references, and a value that looks like a reference. -/
theorem render_of_directiveFree_hashes :
    let t : Text := "##$x#if$y#"
    let values : Entries Value := [("x", .text "a$y#end"), ("y", .bool true)]
    DirectiveFree t ∧ (render t values).result = .ok "##a$y#end#iftrue#" := by
  intro t values
  have hfree : DirectiveFree t := by decide
  have hpieces : Piece.ofText t = [.literal "##", .reference "x", .literal "#if", .reference "y", .literal "#"] := by
    simp [t, Piece.ofText, Text.takeName?, Text.isNameStart, Text.isNamePart, Piece.pushChar]
  refine ⟨hfree, (render_of_directiveFree hfree values).2.trans ?_⟩
  rw [interpolate_eq, hpieces]
  rfl

end Stencil
