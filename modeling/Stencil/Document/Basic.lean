import Stencil.Document.Block

/-!
# Values documents

The text of a values file: one value, with or without brackets around it. Only a mapping gives names to values. Marks may
stand on lines before and after the value.
-/

namespace Stencil

/-- What a values document holds. -/
inductive Document
  /-- Nothing, or null. -/
  | empty
  /-- Values under names. -/
  | mapping (entries : Entries Value)
  /-- Something that gives no names to values. -/
  | nameless

namespace Document

/-- Whether a character may stand in a document at all. -/
def isAllowed (c : Char) : Bool :=
  let n := c.toNat
  n = 9 || n = 10 || n = 13 || (0x20 ≤ n && n ≤ 0x7E) || n = 0x85 || (0xA0 ≤ n && n ≤ 0xFFFD) || 0x10000 ≤ n

/-- The mark at which a document starts. -/
def startMark : Text := "---".toList

/-- The mark at which a document ends. -/
def endMark : Text := "...".toList

/-- What a line holds after a mark, if it starts with the mark and a gap. -/
def afterMark? (mark line : Text) : Option Text := (Text.dropStart? mark line).filter Word.atGap

/-- Whether a line starts with one of the marks. -/
def isMarked (line : Text) : Bool := (afterMark? startMark line).isSome || (afterMark? endMark line).isSome

/-- The lines of a text up to the last one with a value on it. -/
def contentLines (t : Text) : List Text :=
  ((t.splitOn '\n').reverse.dropWhile fun line => Word.isOver line || (afterMark? endMark line).any Word.isOver).reverse

/-- The node of the lines after the first mark. On the line of the mark only a word or a bracketed value may start. -/
def readNode? (lines : List Text) : Except DocumentError (Option Node) := do
  let (marked, lines) : Option Text × List Text :=
    match lines.dropWhile Word.isOver with
    | [] => (none, [])
    | line :: rest =>
      match afterMark? startMark line with
      | some content => (some (content.dropWhile (· = ' ')), rest)
      | none => (none, line :: rest)
  if lines.any isMarked then throw .broken
  match marked.filter fun content => !Word.isOver content with
  | none => Node.ofLines? (Text.joined ['\n'] lines)
  | some content =>
    let (node, rest) ← Node.inline 0 (Text.joined ['\n'] (content :: lines))
    if (← Place.nextLine rest).isEnd then return some node else .error .broken

/-- The document that a text spells. A text of more than one document is refused. -/
def read (t : Text) : Except DocumentError Document := do
  if !t.all isAllowed then throw .broken
  match ← readNode? (contentLines (if t.head? = some '\ufeff' then t.drop 1 else t)) with
  | none => return empty
  | some node =>
    match ← node.value with
    | .null => return empty
    | .mapping names values => return mapping (Value.entries names values)
    | _ => return nameless

end Document

end Stencil
