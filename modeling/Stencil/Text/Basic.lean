/-!
# Text

A text is a list of characters, each with a code point of its own, and every offset, position and column of this library counts
code points. The halves of surrogate pairs are code points of no character, and stand in no text. String literals stand for their
lists of characters.
-/

namespace Stencil

/-- A text as the list of its code points. -/
abbrev Text := List Char

instance : Coe String Text := ⟨String.toList⟩

namespace Text

/-- The texts of a list with a separator between any two neighbours. -/
def joined (separator : Text) : List Text → Text
  | [] => []
  | [t] => t
  | t :: rest => t ++ separator ++ joined separator rest

/-- A text cut at the first character that satisfies `p`: what comes before it and what comes after it. -/
def splitAtFirst? (p : Char → Bool) : Text → Option (Text × Text)
  | [] => none
  | c :: rest => if p c then some ([], rest) else (splitAtFirst? p rest).map fun (l, r) => (c :: l, r)

/-- The rest of a text that starts with another. -/
def dropStart? : Text → Text → Option Text
  | [], t => some t
  | _ :: _, [] => none
  | c :: start, d :: t => if c = d then dropStart? start t else none

/-- Whether a text comes before another in the order of code points. -/
def before : Text → Text → Bool
  | _, [] => false
  | [], _ :: _ => true
  | c :: s, d :: t => c.toNat < d.toNat || (c = d && before s t)

/-- The characters taken while they are of a kind end where the next one is not. -/
theorem takeWhile_append {p : Char → Bool} {t rest : Text} (ht : ∀ c ∈ t, p c = true)
    (hrest : ∀ c ∈ rest.head?, p c = false) : (t ++ rest).takeWhile p = t := by
  rw [List.takeWhile_append_of_pos ht]
  cases rest with
  | nil => rw [List.takeWhile_nil, List.append_nil]
  | cons c rest => rw [List.takeWhile_cons_of_neg (by simp [hrest c rfl]), List.append_nil]

/-- The characters dropped while they are of a kind end where the next one is not. -/
theorem dropWhile_append {p : Char → Bool} {t rest : Text} (ht : ∀ c ∈ t, p c = true)
    (hrest : ∀ c ∈ rest.head?, p c = false) : (t ++ rest).dropWhile p = rest := by
  rw [List.dropWhile_append_of_pos ht]
  cases rest with
  | nil => rfl
  | cons c rest => exact List.dropWhile_cons_of_neg (by simp [hrest c rfl])

/-- After the characters dropped while they are of a kind comes none of that kind. -/
theorem not_of_mem_head?_dropWhile {p : Char → Bool} {t : Text} {c : Char} (hc : c ∈ (t.dropWhile p).head?) : p c = false := by
  have hhead := List.head?_dropWhile_not p t
  rw [Option.mem_def.1 hc] at hhead
  simpa using hhead

end Text

end Stencil
