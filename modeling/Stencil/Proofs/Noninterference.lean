import Stencil.Proofs.Alike
import Stencil.Proofs.Reference
import Stencil.Render.Basic

/-!
# What a template does not mention has no influence

The result of rendering hangs on the caller's values under the names that the template refers to, and on no others: two callers
whose values agree on these names get the same output or the same failure (`render_result_congr`). The two runs handle the same
tokens in contexts that agree on the names, and no token can tell such contexts apart.
-/

namespace Stencil

/-- Two contexts hold the same values under the names that a template refers to. -/
def Context.Agree (template : Text) (c c' : Context) : Prop :=
  ∀ name, RefersTo template name → Entries.get? name c = Entries.get? name c'

/-- Contexts of callers agree on a name where the callers' values do. -/
theorem Context.get?_ofCaller_congr {values values' : Entries Value} {name : Text}
    (h : Entries.get? name (Entries.ofPairs values) = Entries.get? name (Entries.ofPairs values')) :
    Entries.get? name (ofCaller values) = Entries.get? name (ofCaller values') := by
  by_cases hn : name = reservedName
  · rw [hn, get?_reservedName_ofCaller, get?_reservedName_ofCaller]
  · rw [get?_ofCaller hn, get?_ofCaller hn, h]

/-- Contexts that agree still do after the same value has been stored in both. -/
theorem Context.Agree.assign {template : Text} {c c' : Context} (h : Agree template c c') (name : Text) (value : Value) :
    Agree template (c.assign name value) (c'.assign name value) := by
  intro other hother
  by_cases hr : other = reservedName
  · rw [hr, get?_reservedName_assign, get?_reservedName_assign, ← hr, h other hother]
  · by_cases hn : other = name
    · rw [hn, get?_assign_self (hn ▸ hr), get?_assign_self (hn ▸ hr)]
    · rw [get?_assign_of_ne hn, get?_assign_of_ne hn, h other hother]

/-- A token of a template cannot tell apart contexts that agree on the names that the template refers to. -/
theorem Token.respects_agree [World] {template : Text} {tokens : List Token} (ht : tokenize template = .ok tokens) {token : Token}
    (hm : token ∈ tokens) : token.Respects (Context.Agree template) where
  reads := by
    intro c c' h
    -- The names that the token's text refers to are among those of the template.
    have hbody : ∀ name, RefersTo token.form.body name → Entries.get? name c' = Entries.get? name c :=
      fun name hname => (h name (refersTo_of_mem_tokenize ht hm hname)).symm
    obtain ⟨o, form⟩ := token
    cases form with
    | text t => exact interpolate_congr hbody
    | set body =>
      intro a ha
      have hw := Assignment.ofBody?_eq_some_iff.1 ha
      exact evaluate_congr fun name hname => hbody name (hw.refersTo hname)
    | cond condition => exact evaluate_congr hbody
    | elseCond condition => exact evaluate_congr hbody
    | otherwise => trivial
    | finish => trivial
  assigns := fun _ _ _ _ value h => h.assign _ value

/-- Rendering cannot tell two callers apart whose values agree on every name that the template refers to: the output is the
same, or the failure is. -/
theorem render_result_congr [World] {template : Text} {values values' : Entries Value}
    (h : ∀ name, RefersTo template name →
      Entries.get? name (Entries.ofPairs values) = Entries.get? name (Entries.ofPairs values')) :
    (render template values).result = (render template values').result := by
  unfold render
  cases ht : Token.tokenize template with
  | error e => rfl
  | ok tokens =>
    have hstart : (Machine.start (.ofCaller values) template).Alike (Context.Agree template)
        (Machine.start (.ofCaller values') template) :=
      ⟨rfl, rfl, rfl, fun name hname => Context.get?_ofCaller_congr (h name hname)⟩
    exact (Machine.run_alike (fun token hm => Token.respects_agree ht hm) hstart).2.symm

open scoped World in
/-- A value under another name makes no difference, whether it is there or not. -/
theorem render_result_congr_unmentioned :
    let template : Text := "$a#if($b > 1)x#end"
    let values : Entries Value := [("a", .int 1), ("b", .int 2)]
    let more : Entries Value := [("c", .text "secret"), ("a", .int 1), ("b", .int 2)]
    (∀ name, RefersTo template name →
      Entries.get? name (Entries.ofPairs values) = Entries.get? name (Entries.ofPairs more)) ∧
    (render template values).result = (render template more).result := by
  have h : ∀ name, RefersTo "$a#if($b > 1)x#end".toList name → name ≠ "c".toList := by
    rintro name ⟨-, before, after, heq, -⟩ rfl
    have hmem : 'c' ∈ "$a#if($b > 1)x#end".toList := by
      rw [heq]
      simp
    exact absurd hmem (by decide)
  have hagree : ∀ name, RefersTo "$a#if($b > 1)x#end".toList name →
      Entries.get? name (Entries.ofPairs [("a".toList, Value.int 1), ("b".toList, .int 2)]) =
        Entries.get? name (Entries.ofPairs
          [("c".toList, Value.text "secret"), ("a".toList, .int 1), ("b".toList, .int 2)]) := by
    intro name hname
    have hc : ['c'] ≠ name := Ne.symm (h name hname)
    simp [Entries.ofPairs, Entries.insert, Entries.get?, hc]
  exact ⟨hagree, render_result_congr hagree⟩

end Stencil
