import Stencil.Text.Digit
import Stencil.Text.Printable

/-!
# Quoted texts

How a text is shown inside a message or a container: between single quotes, or between double quotes when it holds a
single quote and no double one, with the quote, the backslash and every unprintable character escaped.
-/

namespace Stencil.Text

/-- The last `width` hexadecimal digits of a number, in lower case. -/
def hexDigits : Nat → Nat → Text
  | 0, _ => []
  | width + 1, n => hexDigits width (n / 16) ++ [Nat.digitChar (n % 16)]

/-- The quote that encloses a text: double only where that saves escaping a single one. -/
def quoteFor (t : Text) : Char :=
  if t.contains '\'' && !t.contains '"' then '"' else '\''

/-- A character as it is written between the given quotes. -/
def quotedChar (quote c : Char) : Text :=
  if c = quote || c = '\\' then ['\\', c]
  else if c = '\n' then ['\\', 'n']
  else if c = '\r' then ['\\', 'r']
  else if c = '\t' then ['\\', 't']
  else if isPrintable c then [c]
  else if c.toNat < 0x100 then ['\\', 'x'] ++ hexDigits 2 c.toNat
  else if c.toNat < 0x10000 then ['\\', 'u'] ++ hexDigits 4 c.toNat
  else ['\\', 'U'] ++ hexDigits 8 c.toNat

/-- A text between quotes. -/
def quoted (t : Text) : Text :=
  let quote := quoteFor t
  [quote] ++ t.flatMap (quotedChar quote) ++ [quote]

end Stencil.Text
