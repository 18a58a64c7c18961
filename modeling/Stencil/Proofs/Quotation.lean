import Stencil.Expr.Parser

/-!
# Quoted strings

Which bodies between two quotes spell which text (`Encodes`), said without the two functions that read them. What is read up to
the quote at the end is such a body (`Lexeme.stringTail?_eq_some_iff`), and it is read as the text (`Encodes.unescape_eq`): the
two agree on where a backslash takes the next character along. Every text has such a body (`Text.encodes_escape`).
-/

namespace Stencil

/-- The letters that stand for a control character behind a backslash. -/
def controlLetters : List (Char × Char) := [('n', '\n'), ('t', '\t'), ('r', '\r')]

/-- `Encodes quote body value`: between two quotes the body spells the value. -/
inductive Encodes (quote : Char) : Text → Text → Prop
  | nil : Encodes quote [] []
  | plain {c : Char} {body value : Text} : c ≠ quote → c ≠ '\\' → Encodes quote body value →
      Encodes quote (c :: body) (c :: value)
  /-- Behind a backslash, a character other than those letters stands for itself. -/
  | escaped {c : Char} {body value : Text} : (∀ d, (c, d) ∉ controlLetters) → Encodes quote body value →
      Encodes quote ('\\' :: c :: body) (c :: value)
  | control {c d : Char} {body value : Text} : (c, d) ∈ controlLetters → Encodes quote body value →
      Encodes quote ('\\' :: c :: body) (d :: value)

/-! ## Where a string ends -/

/-- A character that is no backslash ends a string or belongs to it. -/
theorem Lexeme.stringTail?_cons {quote c : Char} (hc : c ≠ '\\') (t : Text) :
    stringTail? quote (c :: t) = if c = quote then some 1 else (stringTail? quote t).map (· + 1) := by
  rw [stringTail?]
  · exact fun h _ => hc h
  · exact fun _ _ h _ => hc h

/-- A string ends with the first quote behind its body. -/
theorem Encodes.stringTail?_append {quote : Char} {body value : Text} (h : Encodes quote body value) (hquote : quote ≠ '\\')
    (rest : Text) : Lexeme.stringTail? quote (body ++ quote :: rest) = some (body.length + 1) := by
  induction h with
  | nil => rw [List.nil_append, Lexeme.stringTail?_cons hquote, if_pos rfl, List.length_nil]
  | plain hc hb _ ih =>
    rw [List.cons_append, Lexeme.stringTail?_cons hb, if_neg hc, ih, Option.map_some, List.length_cons]
  | escaped _ _ ih | control _ _ ih =>
    rw [List.cons_append, List.cons_append, Lexeme.stringTail?, ih, Option.map_some, List.length_cons, List.length_cons]

/-! ## What a body stands for -/

namespace Expr

theorem unescape_cons {c : Char} (hc : c ≠ '\\') (t : Text) : unescape (c :: t) = c :: unescape t := by
  rw [unescape]
  exact fun _ _ h _ => hc h

/-- Behind a backslash, one of the letters stands for its control character. -/
theorem unescape_control {c d : Char} (h : (c, d) ∈ controlLetters) (t : Text) :
    unescape ('\\' :: c :: t) = d :: unescape t := by
  simp only [controlLetters, List.mem_cons, Prod.mk.injEq, List.not_mem_nil, or_false] at h
  rcases h with ⟨rfl, rfl⟩ | ⟨rfl, rfl⟩ | ⟨rfl, rfl⟩ <;> rfl

/-- Behind a backslash, any other character stands for itself. -/
theorem unescape_escaped {c : Char} (h : ∀ d, (c, d) ∉ controlLetters) (t : Text) :
    unescape ('\\' :: c :: t) = c :: unescape t := by
  have hne : ∀ {letter d : Char}, (letter, d) ∈ controlLetters → c ≠ letter := fun hmem hc => h _ (hc ▸ hmem)
  rw [unescape, if_neg (hne (by decide : ('n', '\n') ∈ controlLetters)), if_neg (hne (by decide : ('t', '\t') ∈ controlLetters)),
    if_neg (hne (by decide : ('r', '\r') ∈ controlLetters))]

end Expr

/-- The body of a string stands for the value that it spells. -/
theorem Encodes.unescape_eq {quote : Char} {body value : Text} (h : Encodes quote body value) : Expr.unescape body = value := by
  induction h with
  | nil => rfl
  | plain _ hb _ ih => rw [Expr.unescape_cons hb, ih]
  | escaped hc _ ih => rw [Expr.unescape_escaped hc, ih]
  | control hc _ ih => rw [Expr.unescape_control hc, ih]

/-- Behind a backslash, every character stands for some character. -/
theorem Encodes.behind {quote : Char} {body value : Text} (h : Encodes quote body value) (c : Char) :
    ∃ value', Encodes quote ('\\' :: c :: body) value' := by
  by_cases hc : ∃ d, (c, d) ∈ controlLetters
  · obtain ⟨d, hd⟩ := hc
    exact ⟨d :: value, .control hd h⟩
  · exact ⟨c :: value, .escaped (not_exists.1 hc) h⟩

/-- A string ends exactly with the first quote behind a body. -/
theorem Lexeme.stringTail?_eq_some_iff {quote : Char} (hquote : quote ≠ '\\') {t : Text} {n : Nat} :
    stringTail? quote t = some n ↔
      ∃ body value rest, t = body ++ quote :: rest ∧ Encodes quote body value ∧ n = body.length + 1 := by
  constructor
  · intro h
    induction t using stringTail?.induct quote generalizing n with
    | case1 | case2 => cases h
    | case3 c t ih =>
      rw [stringTail?] at h
      obtain ⟨m, hm, rfl⟩ := Option.map_eq_some_iff.1 h
      obtain ⟨body, value, rest, rfl, hbody, rfl⟩ := ih hm
      obtain ⟨value', hbehind⟩ := hbody.behind c
      exact ⟨'\\' :: c :: body, value', rest, rfl, hbehind, rfl⟩
    | case4 t =>
      rw [stringTail?_cons hquote, if_pos rfl] at h
      cases h
      exact ⟨[], [], t, rfl, .nil, rfl⟩
    | case5 c t hlast hbehind hc ih =>
      have hb : c ≠ '\\' := by
        intro hb
        cases t with
        | nil => exact hlast hb rfl
        | cons d t => exact hbehind d t hb rfl
      rw [stringTail?_cons hb, if_neg hc] at h
      obtain ⟨m, hm, rfl⟩ := Option.map_eq_some_iff.1 h
      obtain ⟨body, value, rest, rfl, hbody, rfl⟩ := ih hm
      exact ⟨c :: body, c :: value, rest, rfl, .plain hc hb hbody, rfl⟩
  · rintro ⟨body, value, rest, rfl, hbody, rfl⟩
    exact hbody.stringTail?_append hquote rest

/-! ## Writing a body -/

namespace Text

/-- A character as it is written between double quotes. -/
def escapeChar (c : Char) : Text :=
  match controlLetters.find? (·.2 = c) with
  | some (letter, _) => ['\\', letter]
  | none => if c = '"' ∨ c = '\\' then ['\\', c] else [c]

/-- A text as it is written between double quotes. -/
def escape (t : Text) : Text := t.flatMap escapeChar

/-- What is written between double quotes spells the text. -/
theorem encodes_escape (t : Text) : Encodes '"' (escape t) t := by
  induction t with
  | nil => exact .nil
  | cons c t ih =>
    rw [escape, List.flatMap_cons]
    unfold escapeChar
    split
    · rename_i letter d hfind
      obtain rfl : d = c := by simpa using List.find?_some hfind
      exact .control (List.mem_of_find?_eq_some hfind) ih
    · split
      · rename_i hc
        refine .escaped (fun d hd => ?_) ih
        simp only [controlLetters, List.mem_cons, Prod.mk.injEq, List.not_mem_nil, or_false] at hd
        rcases hc with rfl | rfl <;> simp at hd
      · rename_i hc
        exact .plain (fun h => hc (.inl h)) (fun h => hc (.inr h)) ih

end Text

end Stencil
