import Stencil.Document.Scalar

/-!
# Words of a document

The quoted and unquoted words of a values document, where they end and what they stand for. Spaces may stand between words;
a tab may stand only inside quotes and comments. Inside a word, the end of a line and the gaps around it count as one space,
and of several line ends the first is dropped.
-/

namespace Stencil

/-- A word of a document. -/
structure Word where
  /-- The text, for a quoted word that between the quotes with all escapes replaced. -/
  text : Text
  /-- Whether the word is quoted. -/
  quoted : Bool
  deriving DecidableEq

namespace Word

/-- The unquoted word of no characters, which stands for null. -/
def absent : Word := ⟨[], false⟩

/-- The mark that takes over the entries of other mappings when it stands as a name. -/
def mergeMark : Text := "<<".toList

/-- The mark of a default value. -/
def defaultMark : Text := "=".toList

/-- Whether a word is the mark that takes over entries. -/
def isMerge (w : Word) : Bool := !w.quoted && w.text = mergeMark

/-- What a word stands for. -/
def value (w : Word) : Except DocumentError Value :=
  if w.quoted then .ok (.text w.text)
  else if w.isMerge || w.text = defaultMark then .error .broken
  else Scalar.value w.text

/-- The name that a word is. A word that stands for something else than a text names nothing that a template could ask
for. -/
def name? (w : Word) : Except DocumentError (Option Text) :=
  if w.quoted || w.text = defaultMark then .ok (some w.text)
  else do return if (← w.value).isText then some w.text else none

/-- Whether a character ends a line. -/
def isBreak (c : Char) : Bool := c = '\n' || c = '\u0085' || c = '\u2028' || c = '\u2029'

/-- Whether a character is a space, a tab or the end of a line. -/
def isGap (c : Char) : Bool := c = ' ' || c = '\t' || isBreak c

/-- Whether a text starts with a gap or is at its end. -/
def atGap : Text → Bool
  | [] => true
  | c :: _ => isGap c

/-- Whether only spaces and a comment are left of a text, if anything. -/
def isOver (t : Text) : Bool :=
  match t.dropWhile (· = ' ') with
  | [] => true
  | c :: _ => c = '#'

/-- How many characters after the opening quote a word in single quotes has, with the closing one. Two quotes stand for one. -/
def singleTail? : Text → Option Nat
  | [] => none
  | '\'' :: '\'' :: rest => (singleTail? rest).map (· + 2)
  | '\'' :: _ => some 1
  | _ :: rest => (singleTail? rest).map (· + 1)

/-- How many characters after the opening quote a word in double quotes has, with the closing one. -/
def doubleTail? : Text → Option Nat
  | [] => none
  | '"' :: _ => some 1
  | '\\' :: _ :: rest => (doubleTail? rest).map (· + 2)
  | _ :: rest => (doubleTail? rest).map (· + 1)

/-- The ends of lines in a gap, each as the character that it stands for. -/
def breaksOf (gap : Text) : Text := (gap.filter isBreak).map fun c => if c = '\u0085' then '\n' else c

/-- A gap inside a word as it is read. -/
def foldGap (gap : Text) : Text :=
  match breaksOf gap with
  | [] => gap
  | ['\n'] => [' ']
  | '\n' :: more => more
  | breaks => breaks

/-- The text between single quotes. -/
def unquoteSingle : Text → Text
  | [] => []
  | '\'' :: '\'' :: rest => '\'' :: unquoteSingle rest
  | c :: rest =>
    if isGap c then
      let more := rest.takeWhile isGap
      foldGap (c :: more) ++ unquoteSingle (rest.drop more.length)
    else c :: unquoteSingle rest
termination_by t => t.length
decreasing_by
  all_goals
    simp only [List.length_cons, List.length_drop]
    omega

/-- What a backslash and a character stand for, where no digits follow. -/
def escaped? : Char → Option Char
  | '0' => some '\x00'
  | 'a' => some '\x07'
  | 'b' => some '\x08'
  | 't' => some '\t'
  | '\t' => some '\t'
  | 'n' => some '\n'
  | 'v' => some '\x0b'
  | 'f' => some '\x0c'
  | 'r' => some '\r'
  | 'e' => some '\x1b'
  | ' ' => some ' '
  | '"' => some '"'
  | '/' => some '/'
  | '\\' => some '\\'
  | 'N' => some '\u0085'
  | '_' => some '\u00a0'
  | 'L' => some '\u2028'
  | 'P' => some '\u2029'
  | _ => none

/-- The number of hexadecimal digits after a backslash and a character. -/
def escapeWidth? : Char → Option Nat
  | 'x' => some 2
  | 'u' => some 4
  | 'U' => some 8
  | _ => none

/-- The largest number that is looked up as that of a character. -/
def numberLimit : Nat := 0x7FFFFFFF

/-- The character with a number. The halves of surrogate pairs have numbers, but are no characters. -/
def ofNumber (n : Nat) : Except DocumentError Char :=
  if n.isValidChar then .ok (.ofNat n)
  else .error (if 0x110000 ≤ n && n ≤ numberLimit then .noCharacter else .broken)

/-- The text between double quotes, if all its escapes are known. A backslash at the end of a line joins the lines. -/
def unquoteDouble : Text → Except DocumentError Text
  | [] => .ok []
  | '\\' :: c :: rest =>
    match escaped? c, escapeWidth? c with
    | some d, _ => do return d :: (← unquoteDouble rest)
    | none, some width =>
      let digits := rest.take width
      if digits.length = width && digits.all Scalar.isHex then do
        let d ← ofNumber (Scalar.baseValue 16 digits)
        return d :: (← unquoteDouble (rest.drop width))
      else .error .broken
    | none, none =>
      if isBreak c then do
        let gap := rest.takeWhile isGap
        return breaksOf gap ++ (← unquoteDouble (rest.drop gap.length))
      else .error .broken
  | c :: rest =>
    if isGap c then do
      let more := rest.takeWhile isGap
      return foldGap (c :: more) ++ (← unquoteDouble (rest.drop more.length))
    else do return c :: (← unquoteDouble rest)
termination_by t => t.length
decreasing_by
  all_goals
    simp only [List.length_cons, List.length_drop]
    omega

/-- Whether a character is a bracket or a comma, which end an unquoted word inside brackets. -/
def isBracket (c : Char) : Bool := c = ',' || c = '[' || c = ']' || c = '{' || c = '}'

/-- Whether an unquoted word, but for gaps, is at its end before a text: at a tab, at a colon with a gap after it, and inside
brackets also at a bracket, a comma, a question mark or a colon before a bracket or a comma. -/
def endsPlain (bracketed : Bool) : Text → Bool
  | [] => true
  | ':' :: rest => atGap rest || (bracketed && rest.head?.any isBracket)
  | c :: _ => c = '\t' || (bracketed && (isBracket c || c = '?'))

/-- Whether a character is a space or the end of a line. -/
def isSpace (c : Char) : Bool := c = ' ' || isBreak c

/-- The spaces after the last end of a line in a gap. -/
def columnAfter (gap : Text) : Nat := (gap.reverse.takeWhile (· = ' ')).length

/-- What an unquoted word goes on with after its first character, and how many characters that takes. A gap inside the word
is read as inside quotes; the word ends before a gap with a hash sign after it, and outside brackets before a line that
starts left of the column `least`. -/
def plainTail (bracketed : Bool) (least : Nat) : Text → Text × Nat
  | [] => ([], 0)
  | c :: rest =>
    if isSpace c then
      let more := rest.takeWhile isSpace
      let gap := c :: more
      let after := rest.drop more.length
      if after.head? = some '#' || endsPlain bracketed after || (!bracketed && gap.any isBreak && columnAfter gap < least) then
        ([], 0)
      else
        let (text, n) := plainTail bracketed least after
        (foldGap gap ++ text, gap.length + n)
    else if endsPlain bracketed (c :: rest) then ([], 0)
    else
      let (text, n) := plainTail bracketed least rest
      (c :: text, n + 1)
termination_by t => t.length
decreasing_by
  all_goals
    simp only [List.length_cons, List.length_drop]
    omega

/-- The characters that no unquoted word starts with. -/
def indicators : List Char := "\t&*!|>%@\x60,[]\x7b\x7d#\"'".toList

/-- Whether an unquoted word starts with a character before a text. -/
def startsPlain (bracketed : Bool) (c : Char) (rest : Text) : Bool :=
  if c = '-' then !atGap rest
  else if c = ':' || c = '?' then !bracketed && !atGap rest
  else !indicators.contains c

/-- The word that starts with a character, and how many characters of the rest belong to it. Outside brackets an unquoted
word does not go on with lines that start left of the column `least`. -/
def start (bracketed : Bool) (least : Nat) (c : Char) (rest : Text) : Except DocumentError (Word × Nat) :=
  if c = '\'' then
    match singleTail? rest with
    | some n => .ok (⟨unquoteSingle (rest.take (n - 1)), true⟩, n)
    | none => .error .broken
  else if c = '"' then
    match doubleTail? rest with
    | some n => do return (⟨← unquoteDouble (rest.take (n - 1)), true⟩, n)
    | none => .error .broken
  else if startsPlain bracketed c rest then
    let (text, n) := plainTail bracketed least rest
    .ok (⟨c :: text, false⟩, n)
  else .error .broken

/-- The longest way from the start of a name to its colon. -/
def nameLimit : Nat := 1024

/-- What a word is followed by if it is a name: spaces and a colon, all on one line with the word and not too far from its
start. `size` is how many characters the word takes of the text that starts with it. -/
def afterColon? (size : Nat) (t : Text) : Option Text :=
  let rest := t.drop size
  let gap := (rest.takeWhile (· = ' ')).length
  match rest.drop gap with
  | ':' :: after => if size + gap ≤ nameLimit && !(t.take size).any isBreak then some after else none
  | _ => none

end Word

end Stencil
