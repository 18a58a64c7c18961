import Stencil.Render.Machine

/-!
# Rendering

A template with a caller's values, from the text to the output: the context is made, the template is split into tokens and
the machine runs on them.
-/

namespace Stencil

/-- What rendering gave: the output or the failure, and the notices. -/
structure Outcome where
  /-- The output or the failure. -/
  result : Except Failure Text
  /-- The notices, in order. -/
  log : List Notice

variable [World]

/-- The output of a template for a caller's values. -/
def render (template : Text) (values : Entries Value) : Outcome :=
  let notices := Context.noticesOfCaller values
  match Token.tokenize template with
  | .error e => ⟨.error (.ofUnterminated template e), notices⟩
  | .ok tokens =>
    let (machine, result) := (Machine.start (.ofCaller values) template).run tokens
    ⟨result, notices ++ .rendering tokens.length :: machine.log⟩

/-- A template with an unterminated directive has no other result. -/
theorem render_of_unterminated {template : Text} {e : Unterminated} (h : Token.tokenize template = .error e)
    (values : Entries Value) : (render template values).result = .error (.ofUnterminated template e) := by
  unfold render
  rw [h]

/-- The result of any other template is that of the run on its tokens. -/
theorem render_of_tokenize {template : Text} {tokens : List Token} (h : Token.tokenize template = .ok tokens)
    (values : Entries Value) :
    (render template values).result = ((Machine.start (.ofCaller values) template).run tokens).2 := by
  unfold render
  rw [h]

end Stencil
