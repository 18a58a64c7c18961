import Stencil.Expr.ParseError
import Stencil.Text.Blank
import Stencil.Text.Identifier

/-!
# Lexemes

An expression as a sequence of numerals, quoted strings, references, names and symbols, each with its raw text and its
position. Blanks separate lexemes and are dropped. Each lexeme is the longest of its kind that starts at its place.
-/

namespace Stencil

/-- What a lexeme is. -/
inductive Lexeme.Kind
  | number
  | string
  /-- A dollar sign and a name. -/
  | var
  | name
  | symbol
  /-- The end of the expression. -/
  | finish
  deriving DecidableEq

/-- A lexeme of an expression: its raw text, and how many characters come before it. -/
structure Lexeme where
  /-- What the lexeme is. -/
  kind : Lexeme.Kind
  /-- The raw text. -/
  text : Text
  /-- The count of characters before the lexeme. -/
  position : Nat
  deriving DecidableEq

namespace Lexeme

/-- The symbols of two characters. -/
def doubleSymbols : List Text :=
  ["==".toList, "!=".toList, "<=".toList, ">=".toList, "&&".toList, "||".toList]

/-- The characters that are symbols by themselves. -/
def singleSymbols : List Char := "-+*/%<>!(),.".toList

/-- How many characters a quoted string goes on after its opening quote, up to and with the closing one. A backslash takes
the character after it along. -/
def stringTail? (quote : Char) : Text → Option Nat
  | [] => none
  | ['\\'] => none
  | '\\' :: _ :: rest => (stringTail? quote rest).map (· + 2)
  | c :: rest => if c = quote then some 1 else (stringTail? quote rest).map (· + 1)

/-- The kind of the lexeme that starts with a character, and how many characters of the rest belong to it. -/
def start? (c : Char) (rest : Text) : Option (Kind × Nat) :=
  match Numeral.take? (c :: rest) with
  | some (numeral, _) => some (.number, numeral.text.length - 1)
  | none =>
    if c = '"' || c = '\'' then (stringTail? c rest).map fun n => (.string, n)
    else if c = '$' then (Text.takeName? rest).map fun (name, _) => (.var, name.length)
    else if Text.isNameStart c then some (.name, (rest.takeWhile Text.isNamePart).length)
    else if doubleSymbols.contains (c :: rest.take 1) then some (.symbol, 1)
    else if singleSymbols.contains c then some (.symbol, 0)
    else none

/-- The lexemes of a text that begins at a position, without the end. -/
def scan (position : Nat) : Text → Except ParseError (List Lexeme)
  | [] => .ok []
  | c :: rest =>
    if Text.isBlank c then scan (position + 1) rest
    else
      match start? c rest with
      | none => .error (.unexpectedCharacter c position)
      | some (kind, n) => do
        return ⟨kind, c :: rest.take n, position⟩ :: (← scan (position + 1 + n) (rest.drop n))
termination_by t => t.length
decreasing_by
  all_goals
    simp only [List.length_cons, List.length_drop]
    omega

/-- The lexemes of an expression, with the end as the last. -/
def lex (expression : Text) : Except ParseError (List Lexeme) := do
  return (← scan 0 expression) ++ [⟨.finish, [], expression.length⟩]

/-- Whether a lexeme is a given symbol. -/
def isSymbol (l : Lexeme) (symbol : Text) : Bool := l.kind = .symbol && l.text = symbol

/-- The infix operator of a level that a lexeme is. -/
def infixOp? (l : Lexeme) (level : Nat) : Option InfixOp :=
  if l.kind = .symbol then (InfixOp.ofSymbol? l.text).filter fun op => op.level = level else none

/-- The operator in front of an operand that a lexeme is. -/
def unaryOp? (l : Lexeme) : Option UnaryOp :=
  if l.kind = .symbol then UnaryOp.ofSymbol? l.text else none

end Lexeme

end Stencil
