import Stencil.Render.Basic
import Stencil.Render.Options

/-!
# Rendering with another renderer first

Another renderer may be asked first. A text that it gives is the result; if it is missing, fails or gives anything else, that
is noted and the template is rendered here. The default one is an engine, which gets the same context as rendering here.
-/

namespace Stencil

/-- What another renderer did. -/
inductive Attempt
  /-- It gave a value. -/
  | returned (value : Value)
  /-- It is not there. -/
  | unavailable (reason : Text)
  /-- It failed. -/
  | failed (reason : Text)

/-- Another renderer: from a template and the caller's values, if any were given, to what it did and what it noted. -/
abbrev Alternate := Text → Option (Entries Value) → List Notice × Attempt

/-- An engine: from a template and a context to its output or the reason that there is none. -/
abbrev Engine := Text → Context → Except Text Text

/-- The engine as another renderer. Where there is no engine, no context is made. -/
def Alternate.ofEngine (engine : Option Engine) : Alternate := fun template values =>
  match engine with
  | none => ([], .unavailable "No module named 'airspeed'".toList)
  | some engine =>
    let values := values.getD []
    match engine template (.ofCaller values) with
    | .ok output => (Context.noticesOfCaller values, .returned (.text output))
    | .error reason => (Context.noticesOfCaller values, .failed reason)

variable [World]

/-- The name of a value's class, as notices give it. -/
def Value.className : Value → Text
  | null => "NoneType".toList
  | bool _ => "bool".toList
  | number (.int _) => "int".toList
  | number (.float _) => "float".toList
  | text _ => "str".toList
  | list .. => "list".toList
  | mapping .. => "dict".toList
  | moment ⟨_, none⟩ => "date".toList
  | moment ⟨_, some _⟩ => "datetime".toList
  | host i => World.className i
  | library _ => "Namespace".toList
  | builtin _ => "BuiltinFunction".toList

/-- The text that an attempt gave, or the notice of why there is none. -/
def Attempt.output : Attempt → Except Notice Text
  | returned (.text t) => .ok t
  | returned v => .error (.unusable v.className)
  | unavailable reason => .error (.unavailable reason)
  | failed reason => .error (.failed reason)

/-- The output of a template for a caller's values, from the other renderer if it is preferred and gives one. -/
def renderWith (options : Options) (alternate : Alternate) (template : Text) (values : Option (Entries Value)) : Outcome :=
  if options.preferOther then
    let (notices, attempt) := alternate template values
    match attempt.output with
    | .ok output => ⟨.ok output, notices⟩
    | .error notice =>
      let here := render template (values.getD [])
      ⟨here.result, notices ++ notice :: here.log⟩
  else render template (values.getD [])

end Stencil
