import Stencil.Expr.Basic
import Stencil.Number.Numeral
import Stencil.Text.Quoted

/-!
# Errors of reading an expression

What can be wrong with the text of an expression, and the words for it. Positions count characters from zero.
-/

namespace Stencil

/-- What is wrong with the text of an expression. -/
inductive ParseError
  /-- No lexeme starts with the character. -/
  | unexpectedCharacter (c : Char) (position : Nat)
  /-- There is no lexeme at all. -/
  | empty
  /-- The expression ends where an operand should start. -/
  | unexpectedEnd
  /-- A lexeme stands where it cannot. -/
  | unexpected (text : Text) (position : Nat)
  /-- A closing parenthesis is missing before a lexeme, or before the end. -/
  | unclosed (found : Option Text) (position : Nat)
  /-- No name follows a point. -/
  | memberName (position : Nat)
  /-- An integer literal is too long. -/
  | tooManyDigits (e : TooManyDigits)
  deriving DecidableEq

/-- An error of reading in words. -/
def ParseError.message : ParseError → Text
  | unexpectedCharacter c position =>
    "Unexpected character " ++ Text.quoted [c] ++ " at position " ++ Text.numeral position
  | empty => "Empty expression".toList
  | unexpectedEnd => "Unexpected end of expression".toList
  | unexpected text position => "Unexpected " ++ Text.quoted text ++ " at position " ++ Text.numeral position
  | unclosed found position =>
    "Expected " ++ Text.quoted [')'] ++ " but found " ++
      (match found with
        | none => "end of expression".toList
        | some text => Text.quoted text) ++ " at position " ++ Text.numeral position
  | memberName position => "Expected a member name at position " ++ Text.numeral position
  | tooManyDigits e => e.message

end Stencil
