import Stencil.Text.Basic

/-!
# Entries

Values under names, in the order in which the names first came. Storing under a name that is already there keeps its place.
Where a name may stand once only, the names are a `Names`, and there is a value for each of them.
-/

namespace Stencil

/-- Values under names, in order. -/
abbrev Entries (α : Type) := List (Text × α)

namespace Entries

variable {α : Type}

/-- The value under a name. -/
def get? (name : Text) : Entries α → Option α
  | [] => none
  | (key, value) :: rest => if key = name then some value else get? name rest

/-- The entries with a value stored under a name: in the name's place if it has one, else at the end. -/
def insert (name : Text) (value : α) : Entries α → Entries α
  | [] => [(name, value)]
  | (key, old) :: rest => if key = name then (key, value) :: rest else (key, old) :: insert name value rest

/-- The names, in order. -/
def names (entries : Entries α) : List Text := entries.map (·.1)

/-- The entries that storing the pairs of a list one after another leaves. -/
def ofPairs (pairs : List (Text × α)) : Entries α :=
  pairs.foldl (fun entries pair => insert pair.1 pair.2 entries) []

@[simp] theorem get?_insert_self (name : Text) (value : α) (entries : Entries α) :
    get? name (insert name value entries) = some value := by
  induction entries with
  | nil => simp [insert, get?]
  | cons pair rest ih =>
    obtain ⟨key, old⟩ := pair
    by_cases h : key = name <;> simp [insert, get?, h, ih]

theorem get?_insert_of_ne {name other : Text} (h : other ≠ name) (value : α) (entries : Entries α) :
    get? other (insert name value entries) = get? other entries := by
  induction entries with
  | nil => simp [insert, get?, h.symm]
  | cons pair rest ih =>
    obtain ⟨key, old⟩ := pair
    by_cases hk : key = name
    · subst hk
      simp [insert, get?, h.symm]
    · simp [insert, get?, hk, ih]

/-- Storing under a name again leaves what was stored last. -/
theorem insert_insert (name : Text) (old value : α) (entries : Entries α) :
    insert name value (insert name old entries) = insert name value entries := by
  induction entries with
  | nil => simp only [insert, if_true]
  | cons pair rest ih =>
    obtain ⟨key, first⟩ := pair
    by_cases h : key = name
    · simp only [insert, if_pos h]
    · simp only [insert, if_neg h, ih]

/-- What is under a name is the value of an entry with the name. -/
theorem mem_of_get?_eq_some {name : Text} {value : α} {entries : Entries α} (h : get? name entries = some value) :
    (name, value) ∈ entries := by
  induction entries with
  | nil => cases h
  | cons pair rest ih =>
    obtain ⟨key, old⟩ := pair
    rw [get?] at h
    split at h
    · rename_i hk
      cases h
      exact hk ▸ List.mem_cons_self
    · exact List.mem_cons_of_mem _ (ih h)

@[simp] theorem mem_names_insert {name other : Text} {value : α} {entries : Entries α} :
    other ∈ (insert name value entries).names ↔ other = name ∨ other ∈ entries.names := by
  induction entries with
  | nil => simp [insert, names]
  | cons pair rest ih =>
    obtain ⟨key, old⟩ := pair
    simp only [names, List.map_cons, List.mem_cons] at ih ⊢
    by_cases h : key = name
    · simp [insert, h]
    · simp only [insert, h, if_false, List.map_cons, List.mem_cons, ih]
      exact or_left_comm

/-- Storing a value repeats no name. -/
theorem nodup_names_insert {entries : Entries α} (h : entries.names.Nodup) (name : Text) (value : α) :
    (insert name value entries).names.Nodup := by
  induction entries with
  | nil => exact List.nodup_cons.2 ⟨List.not_mem_nil, List.nodup_nil⟩
  | cons pair rest ih =>
    obtain ⟨key, old⟩ := pair
    obtain ⟨hkey, hrest⟩ := List.nodup_cons.1 h
    by_cases hk : key = name
    · rw [insert, if_pos hk]
      exact h
    · rw [insert, if_neg hk]
      refine List.nodup_cons.2 ⟨fun hmem => ?_, ih hrest⟩
      exact (mem_names_insert.1 hmem).elim hk hkey

/-- Entries that are made by storing repeat no name. -/
theorem nodup_names_ofPairs (pairs : List (Text × α)) : (ofPairs pairs).names.Nodup := by
  have hfold : ∀ entries : Entries α, entries.names.Nodup →
      (pairs.foldl (fun entries pair => insert pair.1 pair.2 entries) entries).names.Nodup := by
    induction pairs with
    | nil => exact fun _ h => h
    | cons pair pairs ih => exact fun entries h => ih _ (nodup_names_insert h pair.1 pair.2)
  exact hfold [] List.nodup_nil

/-- An entry after a value is stored holds the value or was there before. -/
theorem mem_insert {name : Text} {value : α} {entries : Entries α} {pair : Text × α} (h : pair ∈ insert name value entries) :
    pair = (name, value) ∨ pair ∈ entries := by
  induction entries with
  | nil => exact .inl (List.mem_singleton.1 h)
  | cons first rest ih =>
    obtain ⟨key, old⟩ := first
    rw [insert] at h
    split at h
    · rename_i hk
      rcases List.mem_cons.1 h with rfl | h
      · exact .inl (hk ▸ rfl)
      · exact .inr (List.mem_cons_of_mem _ h)
    · rcases List.mem_cons.1 h with rfl | h
      · exact .inr List.mem_cons_self
      · exact (ih h).imp_right (List.mem_cons_of_mem _)

end Entries

/-- Names in an order, none of them twice. -/
structure Names where
  /-- The names in their order. -/
  toList : List Text
  /-- No name stands twice. -/
  nodup : toList.Nodup

namespace Names

variable {α : Type}

/-- How many names there are. -/
abbrev count (names : Names) : Nat := names.toList.length

/-- The name at a place. -/
def get (names : Names) (i : Fin names.count) : Text := names.toList.get i

/-- The place of a name. -/
def find? (names : Names) (name : Text) : Option (Fin names.count) := names.toList.finIdxOf? name

/-- The values of the names, as entries. -/
def entries (names : Names) (values : Fin names.count → α) : Entries α :=
  (List.finRange names.count).map fun i => (names.get i, values i)

theorem find?_eq_some_iff {names : Names} {name : Text} {i : Fin names.count} : names.find? name = some i ↔ names.get i = name := by
  rw [find?, List.finIdxOf?_eq_some_iff]
  refine ⟨fun h => h.1, fun h => ⟨h, fun j hj hname => ?_⟩⟩
  exact List.pairwise_iff_getElem.1 names.nodup j i j.isLt i.isLt hj (hname.trans h.symm)

end Names

end Stencil
