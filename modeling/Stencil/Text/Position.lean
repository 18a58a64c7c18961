import Stencil.Text.Digit

/-!
# Positions

The line and column of an offset into a text. Lines end at line feeds alone; both counts start at one.
-/

namespace Stencil

/-- A line and a column, both counted from one. -/
structure Position where
  /-- The number of the line. -/
  line : Nat
  /-- The number of the column within the line. -/
  column : Nat
  deriving DecidableEq

namespace Position

/-- The position one character later. -/
def next (p : Position) (c : Char) : Position :=
  if c = '\n' then ⟨p.line + 1, 1⟩ else ⟨p.line, p.column + 1⟩

/-- The position of an offset. An offset past the end is counted on from the end, as if the last line went on. -/
def ofOffset (t : Text) (offset : Nat) : Position :=
  let there := (t.take offset).foldl next ⟨1, 1⟩
  ⟨there.line, there.column + (offset - t.length)⟩

/-- A position in words. -/
def describe (p : Position) : Text :=
  "line " ++ Text.numeral p.line ++ ", column " ++ Text.numeral p.column

end Position

end Stencil
