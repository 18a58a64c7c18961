import Stencil.Proofs.Spacing

/-!
# The longest lexeme at a place

Which texts are lexemes of which kind is said by rules, without a scanner (`Spelled`). What the scanner finds at a place is the
longest of these texts that starts there, and it finds nothing exactly where none starts (`start?_eq_some_iff`,
`start?_eq_none_iff`).
-/

namespace Stencil

/-- Characters of a kind at the start of a text belong to the longest run of that kind there. -/
theorem Text.length_le_takeWhile {p : Char → Bool} {run t : Text} (hrun : ∀ c ∈ run, p c = true) (hstarts : run <+: t) :
    run.length ≤ (t.takeWhile p).length := by
  obtain ⟨rest, rfl⟩ := hstarts
  rw [List.takeWhile_append_of_pos hrun, List.length_append]
  exact Nat.le_add_right _ _

/-- No numeral at the start of a text is longer than the one that is taken. -/
theorem Numeral.length_le_of_take? {n m : Numeral} {t rest : Text} (h : take? t = some (n, rest)) (hm : m.Written)
    (hstarts : m.text <+: t) : m.text.length ≤ n.text.length := by
  obtain ⟨rfl, hn, hstops⟩ := take?_eq_some_iff.1 h
  by_contra! hlonger
  obtain ⟨more, hmore⟩ := List.prefix_of_prefix_length_le (List.prefix_append _ _) hstarts (Nat.le_of_lt hlonger)
  have hrest : more <+: rest := by
    rw [← hmore] at hstarts
    exact (List.prefix_append_right_inj _).1 hstarts
  -- What comes between the ends of the two does not go on with the first, so both are what is taken of the second.
  have hstops' : n.Stops more := by
    obtain ⟨after, rfl⟩ := hrest
    refine ⟨fun c hc => hstops.not_digit c ?_, fun hfraction c ds hds => hstops.not_point hfraction c (ds ++ after) ?_⟩
    · rw [List.head?_append, Option.mem_def.1 hc]
      rfl
    · rw [hds]
      rfl
  have htake := hn.take?_append hstops'
  have htake' := hm.take?_append m.stops_nil
  rw [List.append_nil, ← hmore, htake] at htake'
  obtain ⟨rfl, rfl⟩ := Prod.mk.inj (Option.some.inj htake')
  exact Nat.lt_irrefl _ hlonger

namespace Lexeme

/-- `Spelled kind text`: the text is a lexeme of the kind. -/
inductive Spelled : Kind → Text → Prop
  /-- Digits and, if there is a point, digits behind it. -/
  | number {n : Numeral} : n.Written → Spelled .number n.text
  /-- A body between two quotes of one sort. -/
  | string {quote : Char} {body value : Text} : quote = '"' ∨ quote = '\'' → Encodes quote body value →
      Spelled .string (quote :: (body ++ [quote]))
  /-- A dollar sign and a name. -/
  | var {n : Text} : Text.isName n = true → Spelled .var ('$' :: n)
  | name {n : Text} : Text.isName n = true → Spelled .name n
  | symbol {s : Text} : s ∈ symbols → Spelled .symbol s

/-- `Longest kind text t`: of the lexemes of the kind that `t` starts with, the text is the longest. -/
structure Longest (kind : Kind) (text t : Text) : Prop where
  /-- It is a lexeme of the kind. -/
  spelled : Spelled kind text
  /-- It stands at the start of the other text. -/
  starts : text <+: t
  /-- No lexeme of the kind that stands there is longer. -/
  length_le : ∀ longer : Text, Spelled kind longer → longer <+: t → longer.length ≤ text.length

variable {c : Char} {rest text text' t : Text} {kind kind' : Kind} {n : Nat}

theorem Longest.unique (h : Longest kind text t) (h' : Longest kind text' t) : text = text' := by
  have hle := h'.length_le text h.spelled h.starts
  have hle' := h.length_le text' h'.spelled h'.starts
  exact (List.prefix_of_prefix_length_le h.starts h'.starts hle).eq_of_length (Nat.le_antisymm hle hle')

/-! ## What a lexeme starts with -/

/-- The kind of the lexemes that start with a character, if any do. -/
def Kind.ofFirst (c : Char) : Kind :=
  if Text.isDigit c then .number
  else if c = '"' ∨ c = '\'' then .string
  else if c = '$' then .var
  else if Text.isNameStart c then .name
  else .symbol

/-- What is spelled as a lexeme is one by itself. -/
theorem Spelled.stands (h : Spelled kind text) : Form.Stands ⟨kind, text⟩ := by
  cases h with
  | number hn => exact Form.stands_number hn
  | string hquote hbody => exact Form.stands_string hquote hbody
  | var hn => exact Form.stands_var hn
  | name hn => exact Form.stands_name hn
  | symbol hs => exact Form.stands_symbol hs

theorem Spelled.exists_cons (h : Spelled kind text) : ∃ c tail, text = c :: tail ∧ Text.isBlank c = false := by
  obtain ⟨c, tail, htext, hc, -⟩ := h.stands
  exact ⟨c, tail, htext, hc⟩

/-- The kind of a lexeme is known from its first character. -/
theorem Spelled.kind_eq (h : Spelled kind (c :: rest)) : kind = .ofFirst c := by
  have hfirst := h.stands.first rfl
  cases kind with
  | number => exact (if_pos hfirst).symm
  | string => rcases hfirst with rfl | rfl <;> rfl
  | var =>
    subst hfirst
    rfl
  | name =>
    have hne : ∀ {d : Char}, Text.isNameStart d = false → c ≠ d := by
      rintro d hd rfl
      rw [hd] at hfirst
      cases hfirst
    have hquote : ¬(c = '"' ∨ c = '\'') := not_or.2 ⟨hne (by decide), hne (by decide)⟩
    rw [Kind.ofFirst, Text.isDigit_of_isNameStart hfirst, if_neg Bool.false_ne_true, if_neg hquote, if_neg (hne (by decide)),
      if_pos hfirst]
  | symbol =>
    have hall : ∀ s ∈ symbols, Kind.ofFirst (s.headD '=') = .symbol := by decide
    exact (hall _ hfirst).symm
  | finish => exact hfirst.elim

/-! ## What starts at a place -/

/-- What starts at a place is spelled as a lexeme of its kind. -/
theorem spelled_of_start? (h : start? c rest = some (kind, n)) : n ≤ rest.length ∧ Spelled kind (c :: rest.take n) := by
  cases starts_of_start? h with
  | @number numeral after htake =>
    obtain ⟨heq, hn, -⟩ := Numeral.take?_eq_some_iff.1 htake
    obtain ⟨d, tail, htext, -⟩ := hn.text_eq_cons
    have hspelled := Spelled.number hn
    rw [htext, List.cons_append, List.cons.injEq] at heq
    obtain ⟨rfl, rfl⟩ := heq
    rw [htext] at hspelled ⊢
    rw [List.length_cons, Nat.add_sub_cancel, List.take_left, List.length_append]
    exact ⟨Nat.le_add_right _ _, hspelled⟩
  | string hc htail =>
    have hquote : c ≠ '\\' := by rcases hc with rfl | rfl <;> decide
    obtain ⟨body, value, after, rfl, hbody, rfl⟩ := (stringTail?_eq_some_iff hquote).1 htail
    have hlength : (body ++ [c]).length = body.length + 1 := List.length_append
    rw [List.append_cons, List.take_left' hlength, List.length_append, hlength]
    exact ⟨Nat.le_add_right _ _, .string hc hbody⟩
  | @var name after hc htake =>
    subst hc
    obtain ⟨rfl, hname, -⟩ := Text.takeName?_eq_some_iff.1 htake
    rw [List.take_left, List.length_append]
    exact ⟨Nat.le_add_right _ _, .var hname⟩
  | name hc =>
    have hrun : rest.take (rest.takeWhile Text.isNamePart).length = rest.takeWhile Text.isNamePart :=
      (List.prefix_iff_eq_take.1 (List.takeWhile_prefix _)).symm
    rw [hrun]
    refine ⟨(List.takeWhile_prefix _).length_le, .name ?_⟩
    rw [Text.isName, hc, Bool.true_and]
    exact List.all_takeWhile
  | doubleSymbol hdouble =>
    have hmem := List.contains_iff_mem.1 hdouble
    refine ⟨?_, .symbol (List.mem_append_left _ hmem)⟩
    have hsize : ∀ s ∈ doubleSymbols, s.length = 2 := by decide
    have hlength := hsize _ hmem
    rw [List.length_cons, List.length_take] at hlength
    omega
  | singleSymbol hsingle =>
    exact ⟨Nat.zero_le _, .symbol (List.mem_append_right _ (List.mem_map_of_mem (List.contains_iff_mem.1 hsingle)))⟩

/-- No lexeme of the kind at a place is longer than what starts there. -/
theorem length_le_of_start? (h : start? c rest = some (kind, n)) {longer : Text} (hlonger : Spelled kind longer)
    (hstarts : longer <+: c :: rest) : longer.length ≤ n + 1 := by
  have hsize : ∀ s ∈ symbols, s.length ≤ 2 := by decide
  cases starts_of_start? h with
  | @number numeral after htake =>
    cases hlonger with
    | @number m hm =>
      have hle := Numeral.length_le_of_take? htake hm hstarts
      omega
  | string hc htail =>
    cases hlonger with
    | @string quote body value hquote hbody =>
      have hne : quote ≠ '\\' := by rcases hquote with rfl | rfl <;> decide
      obtain ⟨rfl, after, rfl⟩ := List.cons_prefix_cons.1 hstarts
      rw [List.append_assoc, List.singleton_append, hbody.stringTail?_append hne] at htail
      cases htail
      rw [List.length_cons, List.length_append, List.length_singleton]
  | @var name after hc htake =>
    cases hlonger with
    | @var longer hlonger =>
      obtain ⟨rfl, hname, hafter⟩ := Text.takeName?_eq_some_iff.1 htake
      have hrun : (name ++ after).takeWhile Text.isNamePart = name :=
        Text.takeWhile_append (fun _ hd => Text.isNamePart_of_mem hname hd) hafter
      have hle := Text.length_le_takeWhile (fun _ hd => Text.isNamePart_of_mem hlonger hd) (List.cons_prefix_cons.1 hstarts).2
      rw [hrun] at hle
      exact Nat.succ_le_succ hle
  | name hc =>
    cases hlonger with
    | @name longer hlonger =>
      have hle := Text.length_le_takeWhile (fun _ hd => Text.isNamePart_of_mem hlonger hd) hstarts
      rwa [List.takeWhile_cons_of_pos (Text.isNamePart_of_isNameStart hc)] at hle
  | doubleSymbol hdouble =>
    cases hlonger with
    | symbol hs => exact hsize _ hs
  | singleSymbol hsingle =>
    cases hlonger with
    | symbol hs =>
      -- A longer symbol would have been found first.
      by_contra! hlong
      have htwo : longer.length = 2 := Nat.le_antisymm (hsize longer hs) hlong
      have hdouble : longer ∈ doubleSymbols := by
        rcases List.mem_append.1 hs with hs | hs
        · exact hs
        · obtain ⟨d, -, rfl⟩ := List.mem_map.1 hs
          cases htwo
      have heq := List.prefix_iff_eq_take.1 hstarts
      rw [htwo, List.take_succ_cons] at heq
      rw [heq] at hdouble
      rw [start?_symbol (starts_of_start? h).mem_symbolStarts, if_pos (List.contains_iff_mem.2 hdouble)] at h
      cases h

/-- Something starts at a place if a lexeme stands there. -/
theorem start?_ne_none (h : Spelled kind text) (hstarts : text <+: c :: rest) : start? c rest ≠ none := by
  rw [Option.ne_none_iff_exists']
  cases h with
  | @number n hn =>
    obtain ⟨d, tail, htext, hd⟩ := hn.text_eq_cons
    rw [htext] at hstarts
    obtain ⟨rfl, -⟩ := List.cons_prefix_cons.1 hstarts
    have htaken : Numeral.take? (d :: rest) ≠ none := by
      rw [Ne, Numeral.take?_eq_none_iff, hd]
      exact Bool.noConfusion
    obtain ⟨⟨numeral, after⟩, htake⟩ := Option.ne_none_iff_exists'.1 htaken
    exact ⟨_, start?_number htake⟩
  | @string quote body value hquote hbody =>
    have hne : quote ≠ '\\' := by rcases hquote with rfl | rfl <;> decide
    obtain ⟨rfl, after, rfl⟩ := List.cons_prefix_cons.1 hstarts
    rw [start?_string hquote, List.append_assoc, List.singleton_append, hbody.stringTail?_append hne]
    exact ⟨_, rfl⟩
  | @var name hname =>
    obtain ⟨rfl, after, rfl⟩ := List.cons_prefix_cons.1 hstarts
    cases name with
    | nil => cases hname
    | cons d name =>
      rw [Text.isName, Bool.and_eq_true] at hname
      rw [start?_var, List.cons_append, Text.takeName?, if_pos hname.1]
      exact ⟨_, rfl⟩
  | name hname =>
    cases text with
    | nil => cases hname
    | cons d name =>
      obtain ⟨rfl, -⟩ := List.cons_prefix_cons.1 hstarts
      rw [Text.isName, Bool.and_eq_true] at hname
      exact ⟨_, start?_name hname.1⟩
  | symbol hs =>
    have hfirst : ∀ s ∈ symbols, s.headD '=' ∈ symbolStarts ∧ s ≠ [] := by decide
    obtain ⟨hc, hne⟩ := hfirst _ hs
    obtain ⟨d, tail, rfl⟩ := List.exists_cons_of_ne_nil hne
    obtain ⟨rfl, htail⟩ := List.cons_prefix_cons.1 hstarts
    rw [start?_symbol (c := d) hc]
    split
    · exact ⟨_, rfl⟩
    · rename_i hdouble
      have hsingle : ∀ s ∈ symbols, s ∈ doubleSymbols ∧ s.length = 2 ∨ singleSymbols.contains (s.headD '=') := by decide
      rcases hsingle _ hs with ⟨hs, hlength⟩ | hs
      · rw [List.prefix_iff_eq_take.1 htail, Nat.succ.inj hlength] at hs
        exact absurd (List.contains_iff_mem.2 hs) hdouble
      · exact ⟨_, if_pos hs⟩

/-- What starts at a place is the longest lexeme there. -/
theorem start?_eq_some_iff :
    start? c rest = some (kind, n) ↔ n ≤ rest.length ∧ Longest kind (c :: rest.take n) (c :: rest) := by
  have hlength : ∀ {n : Nat}, n ≤ rest.length → (c :: rest.take n).length = n + 1 := by
    intro n hn
    rw [List.length_cons, List.length_take_of_le hn]
  have hlongest : ∀ {kind n}, start? c rest = some (kind, n) → n ≤ rest.length ∧ Longest kind (c :: rest.take n) (c :: rest) := by
    intro kind n h
    obtain ⟨hn, hspelled⟩ := spelled_of_start? h
    refine ⟨hn, hspelled, List.cons_prefix_cons.2 ⟨rfl, List.take_prefix _ _⟩, fun longer hlonger hstarts => ?_⟩
    rw [hlength hn]
    exact length_le_of_start? h hlonger hstarts
  refine ⟨hlongest, fun ⟨hn, h⟩ => ?_⟩
  obtain ⟨⟨kind', m⟩, hstart⟩ := Option.ne_none_iff_exists'.1 (start?_ne_none h.spelled h.starts)
  obtain ⟨hm, h'⟩ := hlongest hstart
  obtain rfl : kind' = kind := h'.spelled.kind_eq.trans h.spelled.kind_eq.symm
  have heq := congrArg List.length (h.unique h')
  rw [hlength hn, hlength hm] at heq
  rw [hstart, Nat.succ.inj heq]

/-- A lexeme starts before a text exactly if it is the longest one there. -/
theorem start?_append_iff {used next : Text} :
    start? c (used ++ next) = some (kind, used.length) ↔ Longest kind (c :: used) (c :: (used ++ next)) := by
  rw [start?_eq_some_iff, List.take_left, List.length_append, and_iff_right (Nat.le_add_right _ _)]

/-- The longest lexeme at a place is what starts there. -/
theorem longest_iff_start? :
    Longest kind text (c :: rest) ↔ ∃ n, n ≤ rest.length ∧ start? c rest = some (kind, n) ∧ text = c :: rest.take n := by
  constructor
  · intro h
    obtain ⟨d, tail, rfl, -⟩ := h.spelled.exists_cons
    obtain ⟨rfl, htail⟩ := List.cons_prefix_cons.1 h.starts
    rw [List.prefix_iff_eq_take.1 htail] at h
    exact ⟨tail.length, htail.length_le, start?_eq_some_iff.2 ⟨htail.length_le, h⟩,
      congrArg _ (List.prefix_iff_eq_take.1 htail)⟩
  · rintro ⟨n, -, hstart, rfl⟩
    exact (start?_eq_some_iff.1 hstart).2

/-- Nothing starts at a place exactly if no lexeme stands there. -/
theorem start?_eq_none_iff : start? c rest = none ↔ ∀ kind text, Spelled kind text → ¬text <+: c :: rest := by
  constructor
  · intro hnone kind text h hstarts
    exact start?_ne_none h hstarts hnone
  · intro hno
    rw [Option.eq_none_iff_forall_ne_some]
    rintro ⟨kind, n⟩ h
    obtain ⟨-, hlongest⟩ := start?_eq_some_iff.1 h
    exact hno kind _ hlongest.spelled hlongest.starts

end Lexeme

end Stencil
