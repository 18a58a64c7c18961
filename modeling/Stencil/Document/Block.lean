import Stencil.Document.Flow

/-!
# Lines of values

Values without brackets around them. The lines of a mapping start at one column with a name and a colon; those of a list
start at one column with a dash. What belongs to a name or a dash follows it on its line, or stands on the next lines further
to the right; a list that belongs to a name may also start at the name's column. Blank lines and comments count for nothing.
-/

namespace Stencil

/-- The first character after spaces, line ends and comments, and what comes before it on its line. -/
structure Place where
  /-- The count of characters before it on its line. -/
  column : Nat
  /-- The text that starts there, empty at the end. -/
  text : Text

namespace Place

/-- The first place on or after a line of a text, the line starting at the text's start. -/
def ofLines (t : Text) : Place :=
  let rec go (column : Nat) (comment : Bool) : Text → Place
    | [] => ⟨0, []⟩
    | c :: rest =>
      if Word.isBreak c then go 0 false rest
      else if comment then go column true rest
      else if c = ' ' then go (column + 1) false rest
      else if c = '#' then go column true rest
      else ⟨column, c :: rest⟩
  go 0 false t

/-- The first place after the line on which a text starts. Nothing but a comment may be left on that line. -/
def nextLine (t : Text) : Except DocumentError Place :=
  let line := t.takeWhile fun c => !Word.isBreak c
  if Word.isOver line then .ok (ofLines (t.drop line.length)) else .error .broken

/-- Whether the text has ended. -/
def isEnd (p : Place) : Bool := p.text.isEmpty

/-- Whether a list item starts here. -/
def isItem (p : Place) : Bool :=
  match p.text with
  | '-' :: rest => Word.atGap rest
  | _ => false

/-- The name that starts here and the text after its colon, if there is one. -/
def name? (least : Nat) (p : Place) : Except DocumentError (Option (Word × Text)) :=
  match p.text with
  | [] => .ok none
  | c :: rest =>
    if c = '[' || c = '{' then .ok none
    else do
      let (w, n) ← Word.start false least c rest
      match Word.afterColon? (n + 1) (c :: rest) with
      | some after => return if Word.atGap after then some (w, after) else none
      | none => return none

end Place

namespace Node

/-- The word or bracketed value at the start of a text, and the rest. -/
def inline (least : Nat) : Text → Except DocumentError (Node × Text)
  | [] => .error .broken
  | '[' :: rest => readFlow .openList rest
  | '{' :: rest => readFlow .openMapping rest
  | c :: rest => do
    let (w, n) ← Word.start false least c rest
    return (.word w, rest.drop n)

mutual

/-- The node at a place and the next place. Its unquoted words go on with lines that start at the column `least` or right of
it. The first argument bounds the steps. -/
def block (steps : Nat) (least : Nat) (p : Place) : Except DocumentError (Node × Place) :=
  match steps with
  | 0 => .error .broken
  | steps + 1 => do
    if p.isItem then
      let (items, next) ← blockItems steps p
      return (.list items, next)
    else
      match ← p.name? least with
      | some _ => do
        let (entries, next) ← blockEntries steps p
        return (.mapping entries, next)
      | none => do
        let (node, rest) ← inline least p.text
        return (node, ← Place.nextLine rest)

/-- The items of a list from one of them on, and the next place. -/
def blockItems (steps : Nat) (p : Place) : Except DocumentError (List Node × Place) :=
  match steps with
  | 0 => .error .broken
  | steps + 1 => do
    let content := p.text.drop 1
    let gap := (content.takeWhile (· = ' ')).length
    let (item, next) ←
      if Word.isOver (content.takeWhile fun c => !Word.isBreak c) then
        blockBelow steps p.column false (← Place.nextLine content)
      else block steps (p.column + 1) ⟨p.column + 1 + gap, content.drop gap⟩
    if !next.isEnd && p.column < next.column then .error .broken
    else if !next.isEnd && next.column = p.column && next.isItem then
      let (items, last) ← blockItems steps next
      return (item :: items, last)
    else return ([item], next)

/-- The entries of a mapping from one of them on, and the next place. -/
def blockEntries (steps : Nat) (p : Place) : Except DocumentError (List (Word × Node) × Place) :=
  match steps with
  | 0 => .error .broken
  | steps + 1 => do
    match ← p.name? (p.column + 1) with
    | none => .error .broken
    | some (w, after) =>
      let (node, next) ←
        if Word.isOver (after.takeWhile fun c => !Word.isBreak c) then
          blockBelow steps p.column true (← Place.nextLine after)
        else do
          let (node, rest) ← inline (p.column + 1) (after.dropWhile (· = ' '))
          pure (node, ← Place.nextLine rest)
      if !next.isEnd && p.column < next.column then .error .broken
      else if !next.isEnd && next.column = p.column then
        let (entries, last) ← blockEntries steps next
        return ((w, node) :: entries, last)
      else return ([(w, node)], next)

/-- What belongs to a dash or a name at a column with nothing after it on its line, and the next place: what is found there
if it is further to the right, or for a name if it is a list at the same column, else null. -/
def blockBelow (steps : Nat) (column : Nat) (named : Bool) (p : Place) : Except DocumentError (Node × Place) :=
  match steps with
  | 0 => .error .broken
  | steps + 1 =>
    if !p.isEnd && (column < p.column || (named && p.column = column && p.isItem)) then block steps (column + 1) p
    else .ok (.absent, p)

end

/-- The node of a text of lines, if anything is there. Each step of reading uses up a character or leads to one that does. -/
def ofLines? (t : Text) : Except DocumentError (Option Node) := do
  let p := Place.ofLines t
  if p.isEnd then return none
  else
    let (node, next) ← block (4 * t.length + 4) 0 p
    if next.isEnd then return some node else .error .broken

end Node

end Stencil
