import Stencil.Text.Basic

/-!
# Paths

A path in its plain form: without empty steps and steps that stay in place. A path of no steps is the current folder.
-/

namespace Stencil.Path

/-- The slashes at the start of a path: none, one, or two if there are exactly two. -/
def root (t : Text) : Text :=
  match (t.takeWhile (· = '/')).length with
  | 0 => []
  | 2 => "//".toList
  | _ => "/".toList

/-- The steps of a path that lead somewhere. -/
def steps (t : Text) : List Text := (t.splitOn '/').filter fun step => !step.isEmpty && step ≠ ['.']

/-- The plain form of a path. -/
def plain (t : Text) : Text :=
  match root t ++ Text.joined ['/'] (steps t) with
  | [] => ['.']
  | path => path

/-- The plain form of the folder that a path in plain form lies in. -/
def parent (path : Text) : Text := plain (root path ++ Text.joined ['/'] (steps path).dropLast)

end Stencil.Path
