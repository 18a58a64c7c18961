import Stencil.Text.Quoted

/-!
# Builtin functions

The functions that an expression can call and the libraries that group them. Nothing else can be called.
-/

namespace Stencil

/-- A function of the mathematical library. -/
inductive MathFunction
  | abs | ceil | floor | max | min | pow | round | sqrt | trunc
  deriving DecidableEq

/-- A read-only group of functions. -/
inductive Library
  | integer
  | math
  deriving DecidableEq

/-- A function that an expression can call. -/
inductive Builtin
  /-- The leading integer of a text, by its own name. -/
  | parseInt
  /-- Any value as a number. -/
  | number
  /-- The leading integer of a text, as a member of the integer library. -/
  | integerParseInt
  /-- A member of the mathematical library. -/
  | math (f : MathFunction)
  deriving DecidableEq

/-- The member name of a mathematical function. -/
def MathFunction.name : MathFunction → Text
  | abs => "abs".toList
  | ceil => "ceil".toList
  | floor => "floor".toList
  | max => "max".toList
  | min => "min".toList
  | pow => "pow".toList
  | round => "round".toList
  | sqrt => "sqrt".toList
  | trunc => "trunc".toList

namespace Library

/-- The name of a library. -/
def name : Library → Text
  | integer => "Integer".toList
  | math => "Math".toList

/-- The members of a library by name, in alphabetical order. -/
def members : Library → List (Text × Builtin)
  | integer => [("parseInt".toList, .integerParseInt)]
  | math => [MathFunction.abs, .ceil, .floor, .max, .min, .pow, .round, .sqrt, .trunc].map fun f => (f.name, .math f)

/-- The member of a library with a name. -/
def member? (library : Library) (key : Text) : Option Builtin :=
  (library.members.find? fun entry => entry.1 = key).map (·.2)

/-- A library as it is shown in messages: its name and those of its members. -/
def shown (library : Library) : Text :=
  "Namespace(" ++ Text.quoted library.name ++ ", members=[" ++
    Text.joined ", ".toList (library.members.map fun entry => Text.quoted entry.1) ++ "])"

end Library

namespace Builtin

/-- The name of a function, after that of its library if it has one. -/
def name : Builtin → Text
  | parseInt => "parseInt".toList
  | number => "Number".toList
  | integerParseInt => "Integer.parseInt".toList
  | math f => "Math." ++ f.name

/-- A function as it is written into output. -/
def toText (f : Builtin) : Text := "function " ++ f.name ++ "()"

end Builtin

end Stencil
