import Stencil.Text.Position

/-!
# Tokens

A template as a sequence of spans of text and directives. A `#` starts a directive if a keyword and what it needs follow it;
otherwise it is a span of text by itself. The directives `#set`, `#if` and `#elseif` hold what stands between their
parentheses, which are counted without regard to quotes.
-/

namespace Stencil

/-- A directive with parentheses. -/
inductive Opener
  | assignment | condition | alternative
  deriving DecidableEq

/-- What stands at a place of a template. -/
inductive Token.Form
  /-- A span of text. -/
  | text (value : Text)
  /-- An assignment, with its body. -/
  | set (body : Text)
  /-- The start of a chain of branches, with its condition. -/
  | cond (condition : Text)
  /-- A further branch, with its condition. -/
  | elseCond (condition : Text)
  /-- A branch without a condition. -/
  | otherwise
  /-- The end of a chain of branches. -/
  | finish
  deriving DecidableEq

/-- A span of text or a directive, and the offset at which it starts. -/
structure Token where
  /-- The offset of the first character. -/
  offset : Nat
  /-- What stands there. -/
  form : Token.Form
  deriving DecidableEq

/-- A directive whose parenthesis at an offset is never closed. -/
structure Unterminated where
  /-- The offset of the opening parenthesis. -/
  offset : Nat
  deriving DecidableEq

namespace Opener

/-- All directives with parentheses. -/
def all : List Opener := [assignment, condition, alternative]

/-- The keyword of a directive. -/
def keyword : Opener → Text
  | assignment => "set".toList
  | condition => "if".toList
  | alternative => "elseif".toList

/-- The token of a directive and what its parentheses hold. -/
def form : Opener → Text → Token.Form
  | assignment => .set
  | condition => .cond
  | alternative => .elseCond

/-- How many characters of a text come before the opening parenthesis, if the text is the keyword, any spaces and tabs, and
the parenthesis. -/
def headLength? (opener : Opener) (t : Text) : Option Nat :=
  match Text.dropStart? opener.keyword t with
  | none => none
  | some after =>
    let gap := after.takeWhile fun c => c = ' ' || c = '\t'
    match after.drop gap.length with
    | '(' :: _ => some (opener.keyword.length + gap.length)
    | _ => none

/-- The directive with parentheses whose head starts a text, and the length of the head. -/
def ofHead? (t : Text) : Option (Opener × Nat) :=
  all.findSome? fun opener => (opener.headLength? t).map fun n => (opener, n)

end Opener

namespace Token

/-- The index of the closing parenthesis that brings the depth to zero. -/
def closingIndex? (depth : Int) : Text → Option Nat
  | [] => none
  | c :: rest =>
    if c = '(' then (closingIndex? (depth + 1) rest).map (· + 1)
    else if c = ')' then
      if depth = 1 then some 0 else (closingIndex? (depth - 1) rest).map (· + 1)
    else (closingIndex? depth rest).map (· + 1)

/-- What the parenthesis at the start of a text holds, and how many characters it takes together with its content and its
closing one. -/
def parenthesized? (t : Text) : Option (Text × Nat) :=
  (closingIndex? 0 t).map fun i => ((t.take i).drop 1, i + 1)

/-- What starts with a character, and how many characters of the rest belong to it. The error is the distance to a
parenthesis that is never closed. -/
def start (c : Char) (rest : Text) : Except Nat (Form × Nat) :=
  if c = '#' then
    match Opener.ofHead? rest with
    | some (opener, n) =>
      match parenthesized? (rest.drop n) with
      | some (content, size) => .ok (opener.form content, n + size)
      | none => .error (n + 1)
    | none =>
      if "else".toList.isPrefixOf rest then .ok (.otherwise, 4)
      else if "end".toList.isPrefixOf rest then .ok (.finish, 3)
      else .ok (.text ['#'], 0)
  else
    let more := rest.takeWhile (· ≠ '#')
    .ok (.text (c :: more), more.length)

/-- The tokens of a text that begins at an offset. -/
def scan (offset : Nat) : Text → Except Unterminated (List Token)
  | [] => .ok []
  | c :: rest =>
    match start c rest with
    | .error distance => .error ⟨offset + distance⟩
    | .ok (form, n) => do
      return ⟨offset, form⟩ :: (← scan (offset + 1 + n) (rest.drop n))
termination_by t => t.length
decreasing_by
  simp only [List.length_cons, List.length_drop]
  omega

/-- The tokens of a template, in order. -/
def tokenize (template : Text) : Except Unterminated (List Token) := scan 0 template

end Token

end Stencil
