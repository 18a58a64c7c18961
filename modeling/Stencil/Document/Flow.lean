import Stencil.Document.Node

/-!
# Bracketed values

Lists in square brackets and mappings in braces. The brackets, commas, names and words are taken one by one; the containers
that are still open wait on a stack, each with what it expects next. A comma may come before the closing bracket, and a name
without a value has null.
-/

namespace Stencil

/-- A mark or a word of a bracketed value. A word with a colon after it on its line is a name. -/
inductive FlowItem
  | openList | closeList | openMapping | closeMapping | comma
  | name (w : Word)
  | word (w : Word)

/-- What an open mapping waits for. -/
inductive FlowStage
  /-- A name, or the closing brace. -/
  | name
  /-- The value under a name. -/
  | value (name : Word)
  /-- A comma, or the closing brace. -/
  | comma

/-- A container that is still open. -/
inductive OpenContainer
  | list (items : List Node) (wantsItem : Bool)
  | mapping (entries : List (Word × Node)) (stage : FlowStage)

/-- A bracketed value that is being read. -/
structure FlowReader where
  /-- The open containers, the innermost first. -/
  stack : List OpenContainer
  /-- The whole value, once it is complete. -/
  whole : Option Node

namespace FlowItem

/-- The items of a text up to the bracket that closes the outermost of `depth + 1` open ones, and the rest. -/
def scan (depth : Nat) : Text → Except DocumentError (List FlowItem × Text)
  | [] => .error .broken
  | c :: rest =>
    if Word.isSpace c then scan depth rest
    else if c = '#' then scan depth (rest.dropWhile fun d => !Word.isBreak d)
    else if c = '[' then do
      let (items, after) ← scan (depth + 1) rest
      return (openList :: items, after)
    else if c = '{' then do
      let (items, after) ← scan (depth + 1) rest
      return (openMapping :: items, after)
    else if c = ']' || c = '}' then
      let item := if c = ']' then closeList else closeMapping
      match depth with
      | 0 => .ok ([item], rest)
      | outer + 1 => do
        let (items, after) ← scan outer rest
        return (item :: items, after)
    else if c = ',' then do
      let (items, after) ← scan depth rest
      return (comma :: items, after)
    else do
      let (w, n) ← Word.start true 0 c rest
      match Word.afterColon? (n + 1) (c :: rest) with
      | some after => do
        let (items, left) ← scan depth (rest.drop (rest.length - after.length))
        return (name w :: items, left)
      | none => do
        let (items, left) ← scan depth (rest.drop n)
        return (word w :: items, left)
termination_by t => t.length
decreasing_by
  all_goals
    simp only [List.length_cons, List.length_drop]
    first
      | omega
      | exact Nat.lt_succ_of_le (List.dropWhile_sublist _).length_le

end FlowItem

namespace FlowReader

/-- The reader with a complete value in the innermost container. -/
def place (r : FlowReader) (v : Node) : Option FlowReader :=
  match r.stack, r.whole with
  | [], none => some { r with whole := some v }
  | [], some _ => none
  | .list items true :: below, _ => some { r with stack := .list (items ++ [v]) false :: below }
  | .mapping entries (.value name) :: below, _ =>
    some { r with stack := .mapping (entries ++ [(name, v)]) .comma :: below }
  | _, _ => none

/-- The entries of a mapping that ends at a stage. -/
def closed (entries : List (Word × Node)) : FlowStage → List (Word × Node)
  | .value name => entries ++ [(name, .absent)]
  | .name | .comma => entries

/-- The reader after an item. -/
def step (r : FlowReader) (item : FlowItem) : Option FlowReader :=
  match item, r.stack with
  | .openList, stack => some { r with stack := .list [] true :: stack }
  | .openMapping, stack => some { r with stack := .mapping [] .name :: stack }
  | .closeList, .list items _ :: below => { r with stack := below }.place (.list items)
  | .closeMapping, .mapping entries stage :: below =>
    { r with stack := below }.place (.mapping (closed entries stage))
  | .comma, .list items false :: below => some { r with stack := .list items true :: below }
  | .comma, .mapping _ .name :: _ => none
  | .comma, .mapping entries stage :: below => some { r with stack := .mapping (closed entries stage) .name :: below }
  | .name w, .mapping entries .name :: below => some { r with stack := .mapping entries (.value w) :: below }
  | .word w, .mapping entries .name :: below =>
    some { r with stack := .mapping (entries ++ [(w, .absent)]) .comma :: below }
  | .word w, _ => r.place (.word w)
  | _, _ => none

end FlowReader

/-- The node of the bracketed text after an opening bracket or brace, and the rest. -/
def readFlow (opening : FlowItem) (t : Text) : Except DocumentError (Node × Text) := do
  let (items, rest) ← FlowItem.scan 0 t
  match (opening :: items).foldlM FlowReader.step ⟨[], none⟩ with
  | some ⟨[], some v⟩ => return (v, rest)
  | _ => .error .broken

end Stencil
