import Stencil.Text.Basic

/-!
# Blank characters

The characters that may stand between the lexemes of an expression and around a number or a name: Unicode white space
together with the four information separators U+001C to U+001F.
-/

namespace Stencil.Text

/-- The ranges of blank characters, in increasing order. -/
def blankRanges : List (Nat × Nat) := [
  (0x9, 0xD), (0x1C, 0x20), (0x85, 0x85), (0xA0, 0xA0), (0x1680, 0x1680), (0x2000, 0x200A), (0x2028, 0x2029),
  (0x202F, 0x202F), (0x205F, 0x205F), (0x3000, 0x3000)]

/-- Whether a character is blank. -/
def isBlank (c : Char) : Bool :=
  blankRanges.any fun range => range.1 ≤ c.toNat && c.toNat ≤ range.2

/-- A text without its leading blanks. -/
def trimLeft (t : Text) : Text := t.dropWhile isBlank

/-- A text without its trailing blanks. -/
def trimRight (t : Text) : Text := (t.reverse.dropWhile isBlank).reverse

/-- A text without the blanks at its ends. -/
def trim (t : Text) : Text := trimRight (trimLeft t)

end Stencil.Text
