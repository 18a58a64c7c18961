import Stencil.Text.Basic

/-!
# Identifiers

Names are ASCII: a letter or an underscore, then letters, digits and underscores. A scan for a name takes the longest
one that starts a text.
-/

namespace Stencil.Text

/-- Whether a name may start with the character. -/
def isNameStart (c : Char) : Bool := c.isAlpha || c = '_'

/-- Whether a name may go on with the character. -/
def isNamePart (c : Char) : Bool := c.isAlphanum || c = '_'

/-- The longest name at the start of a text, and the rest. -/
def takeName? : Text → Option (Text × Text)
  | [] => none
  | c :: rest => if isNameStart c then some (c :: rest.takeWhile isNamePart, rest.dropWhile isNamePart) else none

/-- Whether a text is a name. -/
def isName : Text → Bool
  | [] => false
  | c :: rest => isNameStart c && rest.all isNamePart

theorem isNamePart_of_isNameStart {c : Char} (h : isNameStart c = true) : isNamePart c = true := by
  rw [isNameStart, Bool.or_eq_true] at h
  rw [isNamePart, Bool.or_eq_true, Char.isAlphanum, Bool.or_eq_true]
  exact h.imp_left .inl

/-- A name goes on with characters of the range from zero to z alone. -/
theorem toNat_of_isNamePart {c : Char} (h : isNamePart c = true) : 48 ≤ c.toNat ∧ c.toNat ≤ 122 := by
  rw [isNamePart, Bool.or_eq_true, Char.isAlphanum, Bool.or_eq_true] at h
  change ((decide (65 ≤ c.val ∧ c.val ≤ 90) || (decide (97 ≤ c.val) && decide (c.val ≤ 122))) = true ∨
    (decide (48 ≤ c.val) && decide (c.val ≤ 57)) = true) ∨ decide (c = '_') = true at h
  simp only [Bool.or_eq_true, Bool.and_eq_true, decide_eq_true_iff, UInt32.le_iff_toNat_le] at h
  change (((65 ≤ c.toNat ∧ c.toNat ≤ 90) ∨ (97 ≤ c.toNat ∧ c.toNat ≤ 122)) ∨ (48 ≤ c.toNat ∧ c.toNat ≤ 57)) ∨ c = '_' at h
  rcases h with hc | rfl
  · omega
  · decide

/-- Every character of a name is one that a name may go on with. -/
theorem isNamePart_of_mem {name : Text} (h : isName name = true) {c : Char} (hc : c ∈ name) : isNamePart c = true := by
  cases name with
  | nil => cases hc
  | cons d name =>
    rw [isName, Bool.and_eq_true, List.all_eq_true] at h
    rcases List.mem_cons.1 hc with rfl | hc
    · exact isNamePart_of_isNameStart h.1
    · exact h.2 c hc

/-- What is taken is a name, up to where it does not go on. -/
theorem takeName?_eq_some_iff {t name rest : Text} : takeName? t = some (name, rest) ↔
    t = name ++ rest ∧ isName name = true ∧ ∀ c ∈ rest.head?, isNamePart c = false := by
  constructor
  · intro h
    cases t with
    | nil => cases h
    | cons c t =>
      rw [takeName?] at h
      split at h
      · rename_i hc
        cases h
        refine ⟨by simp [List.takeWhile_append_dropWhile], ?_, fun d hd => not_of_mem_head?_dropWhile hd⟩
        rw [isName, hc, Bool.true_and]
        exact List.all_takeWhile
      · cases h
  · rintro ⟨rfl, hname, hrest⟩
    cases name with
    | nil => cases hname
    | cons c name =>
      rw [isName, Bool.and_eq_true] at hname
      obtain ⟨hc, hall⟩ := hname
      rw [List.all_eq_true] at hall
      rw [List.cons_append, takeName?, if_pos hc, takeWhile_append hall hrest, dropWhile_append hall hrest]

end Stencil.Text
