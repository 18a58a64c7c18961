import Mathlib.Data.List.Chain
import Mathlib.Data.List.TakeWhile
import Stencil.Proofs.Assignment
import Stencil.Proofs.Lexeme
import Stencil.Proofs.Quotation

/-!
# Lexemes with blanks between them

A lexeme without its position is its form. A form that is a lexeme by itself (`Form.Stands`) is read wherever the text after it
does not go on with it (`start?_append`). So forms of which each can be told apart from the next (`Form.Adjacent`) are read from
every text that holds them in order, with blanks anywhere between them or none (`scan_of_spaced`).
-/

namespace Stencil

namespace Lexeme

/-! ## What starts with a character -/

variable {c : Char} {rest : Text}

theorem start?_number {n : Numeral} {after : Text} (h : Numeral.take? (c :: rest) = some (n, after)) :
    start? c rest = some (.number, n.text.length - 1) := by
  unfold start?
  rw [h]

/-- Where no digit is, there is no number. -/
theorem start?_of_not_digit (hc : Text.isDigit c = false) :
    start? c rest =
      if c = '"' || c = '\'' then (stringTail? c rest).map fun n => (.string, n)
      else if c = '$' then (Text.takeName? rest).map fun (name, _) => (.var, name.length)
      else if Text.isNameStart c then some (.name, (rest.takeWhile Text.isNamePart).length)
      else if doubleSymbols.contains (c :: rest.take 1) then some (.symbol, 1)
      else if singleSymbols.contains c then some (.symbol, 0)
      else none := by
  unfold start?
  rw [Numeral.take?_eq_none_iff.2 hc]

theorem start?_string (hc : c = '"' ∨ c = '\'') : start? c rest = (stringTail? c rest).map fun n => (.string, n) := by
  rcases hc with rfl | rfl <;> exact start?_of_not_digit (by decide)

theorem start?_var : start? '$' rest = (Text.takeName? rest).map fun (name, _) => (.var, name.length) :=
  start?_of_not_digit (by decide)

/-- A letter or an underscore starts a name. -/
theorem start?_name (hc : Text.isNameStart c = true) :
    start? c rest = some (.name, (rest.takeWhile Text.isNamePart).length) := by
  have hne : ∀ {d : Char}, Text.isNameStart d = false → c ≠ d := by
    rintro d hd rfl
    rw [hc] at hd
    cases hd
  rw [start?_of_not_digit (Text.isDigit_of_isNameStart hc), if_neg (by simp [hne (by decide : Text.isNameStart '"' = false),
    hne (by decide : Text.isNameStart '\'' = false)]), if_neg (hne (by decide)), if_pos hc]

/-- The characters that symbols start with. -/
def symbolStarts : List Char := "=!<>&|-+*/%(),.".toList

/-- One of those characters starts a symbol of two characters, or is one by itself, or starts nothing. -/
theorem start?_symbol (hc : c ∈ symbolStarts) :
    start? c rest =
      if doubleSymbols.contains (c :: rest.take 1) then some (.symbol, 1)
      else if singleSymbols.contains c then some (.symbol, 0)
      else none := by
  have hother : symbolStarts.all fun c => !(Text.isDigit c || (c = '"' || c = '\'') || c = '$' || Text.isNameStart c) := by
    decide
  have hc := List.all_eq_true.1 hother c hc
  rw [Bool.not_eq_true', Bool.or_eq_false_iff, Bool.or_eq_false_iff, Bool.or_eq_false_iff, decide_eq_false_iff_not] at hc
  obtain ⟨⟨⟨hd, hq⟩, hv⟩, hn⟩ := hc
  rw [start?_of_not_digit hd, if_neg (Bool.eq_false_iff.1 hq), if_neg hv, if_neg (Bool.eq_false_iff.1 hn)]

/-- A symbol starts with one of those characters. -/
theorem Starts.mem_symbolStarts {n : Nat} (h : Starts c rest .symbol n) : c ∈ symbolStarts := by
  have hdouble : ∀ s ∈ doubleSymbols, s.headD '=' ∈ symbolStarts := by decide
  have hsingle : singleSymbols.all symbolStarts.contains := by decide
  cases h with
  | doubleSymbol h => exact hdouble _ (List.contains_iff_mem.1 h)
  | singleSymbol h => exact List.contains_iff_mem.1 (List.all_eq_true.1 hsingle c (List.contains_iff_mem.1 h))

/-! ## Forms -/

/-- What a lexeme is and its raw text. -/
structure Form where
  /-- What the lexeme is. -/
  kind : Kind
  /-- The raw text. -/
  text : Text
  deriving DecidableEq

/-- The form of a lexeme. -/
def form (l : Lexeme) : Form := ⟨l.kind, l.text⟩

/-- A lexeme of a form, at no place in particular. -/
def Form.lexeme (f : Form) : Lexeme := ⟨f.kind, f.text, 0⟩

theorem form_lexeme (f : Form) : f.lexeme.form = f := rfl

/-- A form that is a lexeme by itself. -/
def Form.Stands (f : Form) : Prop :=
  ∃ c tail, f.text = c :: tail ∧ Text.isBlank c = false ∧ start? c tail = some (f.kind, tail.length)

instance (f : Form) : Decidable f.Stands :=
  match h : f.text with
  | [] => isFalse (by rintro ⟨c, tail, htext, -⟩; rw [h] at htext; cases htext)
  | c :: tail =>
    decidable_of_iff (Text.isBlank c = false ∧ start? c tail = some (f.kind, tail.length)) (by
      constructor
      · rintro ⟨hc, hstart⟩
        exact ⟨c, tail, h, hc, hstart⟩
      · rintro ⟨d, ds, htext, hc, hstart⟩
        rw [h] at htext
        cases htext
        exact ⟨hc, hstart⟩)

/-- A text does not go on with a form. -/
def Form.Stops (f : Form) (rest : Text) : Prop :=
  match f.kind with
  | .number => ∀ n : Numeral, n.text = f.text → n.Stops rest
  | .var | .name => ∀ c ∈ rest.head?, Text.isNamePart c = false
  | .symbol => ∀ c ∈ rest.head?, f.text ++ [c] ∉ doubleSymbols
  | .string | .finish => True

/-- A form is read where the text after it does not go on with it. -/
theorem start?_append {tail : Text} {kind : Kind} (h : start? c tail = some (kind, tail.length))
    (hs : Form.Stops ⟨kind, c :: tail⟩ rest) : start? c (tail ++ rest) = some (kind, tail.length) := by
  generalize hlength : tail.length = n at h ⊢
  cases starts_of_start? h with
  | @number numeral after htake =>
    obtain ⟨heq, hwritten, -⟩ := Numeral.take?_eq_some_iff.1 htake
    obtain ⟨d, ds, htext, -⟩ := hwritten.text_eq_cons
    have hafter : after = [] := by
      have hlengths := congrArg List.length heq
      rw [List.length_cons, List.length_append] at hlengths
      rw [htext, List.length_cons] at hlengths hlength
      exact List.eq_nil_of_length_eq_zero (by omega)
    rw [hafter, List.append_nil] at heq
    have htake' := hwritten.take?_append (hs numeral heq.symm)
    rw [← heq, List.cons_append] at htake'
    exact start?_number htake'
  | string hc htail =>
    have hquote : c ≠ '\\' := by
      rintro rfl
      rcases hc with hc | hc <;> cases hc
    obtain ⟨body, value, after, rfl, hbody, rfl⟩ := (stringTail?_eq_some_iff hquote).1 htail
    rw [start?_string hc, List.append_assoc, List.cons_append, hbody.stringTail?_append hquote, Option.map_some]
  | @var name after hc htake =>
    subst hc
    obtain ⟨rfl, hname, -⟩ := Text.takeName?_eq_some_iff.1 htake
    obtain rfl : after = [] := by
      rw [List.length_append] at hlength
      exact List.eq_nil_of_length_eq_zero (by omega)
    rw [List.append_nil, start?_var, Text.takeName?_eq_some_iff.2 ⟨rfl, hname, hs⟩, Option.map_some]
  | name hc =>
    have hall : ∀ d ∈ tail, Text.isNamePart d = true := by
      rw [← (List.takeWhile_prefix Text.isNamePart).eq_of_length hlength.symm]
      exact List.all_eq_true.1 List.all_takeWhile
    rw [start?_name hc, Text.takeWhile_append hall hs, hlength]
  | doubleSymbol hdouble =>
    obtain ⟨d, rfl⟩ := List.length_eq_one_iff.1 hlength
    rw [start?_symbol (starts_of_start? h).mem_symbolStarts]
    exact if_pos hdouble
  | singleSymbol hsingle =>
    obtain rfl : tail = [] := List.eq_nil_of_length_eq_zero hlength
    have hsize : ∀ s ∈ doubleSymbols, s.length = 2 := by decide
    have hdouble : ¬doubleSymbols.contains (c :: rest.take 1) = true := by
      rw [List.contains_iff_mem]
      intro hmem
      cases rest with
      | nil => exact absurd (hsize _ hmem) (by simp)
      | cons d rest => exact hs d rfl hmem
    rw [List.nil_append, start?_symbol (starts_of_start? h).mem_symbolStarts, if_neg hdouble, if_pos hsingle]

/-- All symbols. -/
def symbols : List Text := doubleSymbols ++ singleSymbols.map fun c => [c]

namespace Form

theorem stands_symbol {s : Text} (h : s ∈ symbols) : Stands ⟨.symbol, s⟩ := by
  have hall : ∀ s ∈ symbols, Stands ⟨.symbol, s⟩ := by decide
  exact hall s h

/-- A name is a lexeme. -/
theorem stands_name {n : Text} (h : Text.isName n = true) : Stands ⟨.name, n⟩ := by
  cases n with
  | nil => cases h
  | cons c tail =>
    rw [Text.isName, Bool.and_eq_true, List.all_eq_true] at h
    obtain ⟨hc, htail⟩ := h
    refine ⟨c, tail, rfl, Text.isBlank_of_isNamePart (Text.isNamePart_of_isNameStart hc), ?_⟩
    rw [start?_name hc, List.takeWhile_eq_self_iff.2 htail]

theorem stands_var {n : Text} (h : Text.isName n = true) : Stands ⟨.var, '$' :: n⟩ := by
  have htake : Text.takeName? n = some (n, []) := Text.takeName?_eq_some_iff.2 ⟨(List.append_nil n).symm, h, nofun⟩
  refine ⟨'$', n, rfl, by decide, ?_⟩
  rw [start?_var, htake, Option.map_some]

/-- A body between quotes is a lexeme. -/
theorem stands_string {quote : Char} {body value : Text} (hquote : quote = '"' ∨ quote = '\'') (h : Encodes quote body value) :
    Stands ⟨.string, quote :: (body ++ [quote])⟩ := by
  have hkinds : Text.isBlank quote = false ∧ quote ≠ '\\' := by rcases hquote with rfl | rfl <;> decide
  refine ⟨quote, body ++ [quote], rfl, hkinds.1, ?_⟩
  rw [start?_string hquote, h.stringTail?_append hkinds.2, Option.map_some, List.length_append, List.length_singleton]

/-- A numeral is a lexeme. -/
theorem stands_number {n : Numeral} (h : n.Written) : Stands ⟨.number, n.text⟩ := by
  obtain ⟨c, tail, htext, hc⟩ := h.text_eq_cons
  have htake := h.take?_append n.stops_nil
  rw [List.append_nil, htext] at htake
  refine ⟨c, tail, htext, Text.isBlank_of_isDigit hc, ?_⟩
  rw [start?_number htake, htext, List.length_cons, Nat.add_sub_cancel]

end Form

/-! ## Telling forms apart -/

namespace Form

/-- What the first character of a form is, for each kind of lexeme. -/
theorem Stands.first {f : Form} (h : f.Stands) {c : Char} {tail : Text} (htext : f.text = c :: tail) :
    match f.kind with
    | .number => Text.isDigit c = true
    | .string => c = '"' ∨ c = '\''
    | .var => c = '$'
    | .name => Text.isNameStart c = true
    | .symbol => f.text ∈ symbols
    | .finish => False := by
  obtain ⟨d, ds, heq, -, hstart⟩ := h
  rw [htext] at heq ⊢
  cases heq
  generalize f.kind = kind at hstart ⊢
  generalize hlength : tail.length = n at hstart
  cases starts_of_start? hstart with
  | number htake =>
    show Text.isDigit c = true
    rw [← Bool.not_eq_false]
    intro hc
    rw [Numeral.take?_eq_none_iff.2 hc] at htake
    cases htake
  | string hc _ => exact hc
  | var hc _ => exact hc
  | name hc => exact hc
  | doubleSymbol hdouble =>
    obtain ⟨d, rfl⟩ := List.length_eq_one_iff.1 hlength
    exact List.mem_append_left _ (List.contains_iff_mem.1 hdouble)
  | singleSymbol hsingle =>
    obtain rfl : tail = [] := List.eq_nil_of_length_eq_zero hlength
    exact List.mem_append_right _ (List.mem_map_of_mem (List.contains_iff_mem.1 hsingle))

/-- Whether a form can stand behind a symbol other than a point: it starts an operand, or closes a parenthesis. -/
def Opens (f : Form) : Prop := f.kind ≠ .symbol ∨ f.text ∈ ["(".toList, ")".toList, "-".toList, "!".toList]

/-- Forms that can be told apart wherever the second comes after the first. -/
inductive Adjacent (f g : Form) : Prop
  /-- A symbol behind an operand. -/
  | behindOperand : f.kind ≠ .symbol ∨ f.text = ")" → g.kind = .symbol → Adjacent f g
  /-- An operand, or a parenthesis, behind a symbol other than a point. -/
  | behindSymbol : f.kind = .symbol → f.text ≠ "." → g.Opens → Adjacent f g
  /-- A name behind a symbol. Nothing else comes behind a point, so that the point does not go on with a number before it. -/
  | beforeName : f.kind = .symbol → g.kind = .name → Adjacent f g

/-- `Spaced forms text`: the text holds the forms in order, and nothing but blanks between them. -/
inductive Spaced : List Form → Text → Prop
  | nil : Spaced [] []
  | blank {fs : List Form} {c : Char} {t : Text} : Text.isBlank c = true → Spaced fs t → Spaced fs (c :: t)
  | form {f : Form} {fs : List Form} {t : Text} : Spaced fs t → Spaced (f :: fs) (f.text ++ t)

theorem spaced_flatMap (fs : List Form) : Spaced fs (fs.flatMap (·.text)) := by
  induction fs with
  | nil => exact .nil
  | cons f fs ih => exact .form ih

variable {f g : Form} {fs : List Form} {t : Text}

/-- The empty text does not go on with a form. -/
theorem stops_nil (f : Form) : f.Stops [] := by
  unfold Stops
  cases f.kind with
  | number => exact fun n _ => n.stops_nil
  | string | finish => trivial
  | var | name | symbol => exact nofun

theorem mem_of_append_mem_doubleSymbols {s : Text} {d : Char} (h : s ++ [d] ∈ doubleSymbols) : d ∈ ['=', '&', '|'] := by
  have hlast : ∀ s ∈ doubleSymbols, s.getLastD '=' ∈ ['=', '&', '|'] := by decide
  have hd := hlast _ h
  rwa [List.getLastD_concat] at hd

/-- A character of a kind that excludes those does not come second in a symbol. -/
theorem not_second_of (p : Char → Bool) (hequal : p '=' = false) (hand : p '&' = false) (hor : p '|' = false) {d : Char}
    (hd : p d = true) : d ∉ ['=', '&', '|'] := by
  rw [List.mem_cons, List.mem_cons, List.mem_singleton]
  rintro (rfl | rfl | rfl)
  · exact Bool.false_ne_true (hequal.symm.trans hd)
  · exact Bool.false_ne_true (hand.symm.trans hd)
  · exact Bool.false_ne_true (hor.symm.trans hd)

/-- A blank does not go on with a form. -/
theorem stops_blank (f : Form) {c : Char} (hc : Text.isBlank c = true) (t : Text) : f.Stops (c :: t) := by
  have hpart := Text.isNamePart_of_isBlank hc
  have hdigit := Text.isDigit_of_isBlank hc
  have hne : ∀ {d : Char}, Text.isBlank d = false → c ≠ d := by
    rintro d hd rfl
    rw [hc] at hd
    cases hd
  unfold Stops
  cases f.kind with
  | number =>
    refine fun n _ => ⟨?_, fun _ d after heq => ?_⟩
    · rintro d ⟨⟩
      exact hdigit
    · cases heq
      exact absurd rfl (hne (by decide))
  | string | finish => trivial
  | var | name =>
    rintro d ⟨⟩
    exact hpart
  | symbol =>
    rintro d ⟨⟩ hmem
    exact not_second_of Text.isBlank rfl rfl rfl hc (mem_of_append_mem_doubleSymbols hmem)

/-- No digit comes behind a point. -/
theorem not_digit_behind_point (hk : f.kind = .symbol) (hpoint : f.text = ".") (hstand : ∀ g ∈ fs, g.Stands)
    (hchain : (f :: fs).IsChain Adjacent) (h : Spaced fs t) : ∀ c ∈ t.head?, Text.isDigit c = false := by
  intro c hc
  cases h with
  | nil => cases hc
  | blank hblank _ =>
    cases hc
    exact Text.isDigit_of_isBlank hblank
  | @form g fs t hs =>
    have hg := hstand g List.mem_cons_self
    obtain ⟨d, tail, htext, -⟩ := id hg
    have hfirst := hg.first htext
    rw [htext] at hc
    cases hc
    cases (List.isChain_cons_cons.1 hchain).1 with
    | behindOperand hf _ =>
      rw [hpoint] at hf
      rcases hf with hf | hf
      · exact absurd hk hf
      · cases hf
    | behindSymbol _ hf _ => exact absurd hpoint hf
    | beforeName _ hname =>
      rw [hname] at hfirst
      exact Text.isDigit_of_isNameStart hfirst

/-- A form that starts an operand, or a parenthesis, does not make a symbol longer. -/
theorem Opens.not_second (h : g.Opens) (hstand : g.Stands) {d : Char} {tail : Text} (htext : g.text = d :: tail) :
    d ∉ ['=', '&', '|'] := by
  have hfirst := hstand.first htext
  rcases h with h | h
  · cases hk : g.kind with
    | number =>
      rw [hk] at hfirst
      exact not_second_of Text.isDigit rfl rfl rfl hfirst
    | string =>
      rw [hk] at hfirst
      rcases hfirst with rfl | rfl <;> decide
    | var =>
      rw [hk] at hfirst
      subst hfirst
      decide
    | name =>
      rw [hk] at hfirst
      exact not_second_of Text.isNameStart rfl rfl rfl hfirst
    | symbol => exact absurd hk h
    | finish =>
      rw [hk] at hfirst
      exact hfirst.elim
  · have hsymbols : ∀ s ∈ ["(".toList, ")".toList, "-".toList, "!".toList], s.headD '=' ∉ ['=', '&', '|'] := by decide
    have hhead := hsymbols g.text h
    rwa [htext] at hhead

/-- A form is not made longer by forms that come after it, however they are spaced. -/
theorem stops_of_adjacent (hstand : ∀ g ∈ fs, g.Stands) (hchain : (f :: fs).IsChain Adjacent) (h : Spaced fs t) :
    f.Stops t := by
  cases h with
  | nil => exact stops_nil f
  | blank hc _ => exact stops_blank f hc _
  | @form g fs t hs =>
    obtain ⟨hadjacent, hchain'⟩ := List.isChain_cons_cons.1 hchain
    have hg := hstand g List.mem_cons_self
    obtain ⟨d, tail, htext, -⟩ := id hg
    have hfirst := hg.first htext
    have hsymbol : f.kind ≠ .symbol → g.kind = .symbol := by
      intro hf
      cases hadjacent with
      | behindOperand _ hg => exact hg
      | behindSymbol hk | beforeName hk => exact absurd hk hf
    have hother : ∀ s ∈ symbols, Text.isDigit (s.headD '0') = false ∧ Text.isNamePart (s.headD '0') = false := by decide
    have hpoint : ∀ s ∈ symbols, s.head? = some '.' → s = "." := by decide
    unfold Stops
    cases hk : f.kind with
    | number =>
      have hgk := hsymbol (by rw [hk]; nofun)
      rw [hgk] at hfirst
      refine fun n _ => ⟨?_, fun _ c after heq => ?_⟩
      · rw [htext]
        rintro c ⟨⟩
        have hdigit := (hother _ hfirst).1
        rwa [htext] at hdigit
      · -- The symbol can only be a point, and behind that comes a name.
        obtain rfl : d = '.' := by
          rw [htext] at heq
          exact (List.cons.inj heq).1
        have hgp := hpoint _ hfirst (by rw [htext]; rfl)
        rw [hgp] at heq
        obtain rfl : t = c :: after := (List.cons.inj heq).2
        exact not_digit_behind_point hgk hgp (fun g hg => hstand g (List.mem_cons_of_mem _ hg)) hchain' hs c rfl
    | string | finish => trivial
    | var | name =>
      rw [hsymbol (by rw [hk]; nofun)] at hfirst
      have hpart := (hother _ hfirst).2
      rw [htext] at hpart ⊢
      rintro c ⟨⟩
      exact hpart
    | symbol =>
      rw [htext]
      rintro c ⟨⟩ hmem
      have hsecond := mem_of_append_mem_doubleSymbols hmem
      cases hadjacent with
      | behindOperand hf _ =>
        have hclose : ∀ s ∈ doubleSymbols, s.head? ≠ some ')' := by decide
        rcases hf with hf | hf
        · exact absurd hk hf
        · rw [hf] at hmem
          exact hclose _ hmem rfl
      | behindSymbol _ _ hopens => exact hopens.not_second hg htext hsecond
      | beforeName _ hname => exact Opens.not_second (.inl (by rw [hname]; nofun)) hg htext hsecond

end Form

/-- Forms that can be told apart are read from every text that holds them in order with nothing but blanks between them. By
induction on the text. -/
theorem scan_of_spaced {fs : List Form} {t : Text} (h : Form.Spaced fs t) (hstand : ∀ f ∈ fs, f.Stands)
    (hchain : fs.IsChain Form.Adjacent) (p : Nat) : ∃ lexemes, scan p t = .ok lexemes ∧ lexemes.map form = fs := by
  induction h generalizing p with
  | nil => exact ⟨[], by rw [scan], rfl⟩
  | blank hc _ ih =>
    obtain ⟨lexemes, hscan, hforms⟩ := ih hstand hchain (p + 1)
    exact ⟨lexemes, scan_cons_eq_ok_iff.2 (.inl ⟨hc, hscan⟩), hforms⟩
  | @form f fs t hs ih =>
    have hrest : ∀ g ∈ fs, g.Stands := fun g hg => hstand g (List.mem_cons_of_mem _ hg)
    obtain ⟨c, tail, htext, hc, hstart⟩ := hstand f List.mem_cons_self
    have hstops : Form.Stops ⟨f.kind, c :: tail⟩ t := htext ▸ Form.stops_of_adjacent hrest hchain hs
    have hstart' := start?_append hstart hstops
    obtain ⟨lexemes, hscan, hforms⟩ := ih hrest hchain.tail (p + 1 + tail.length)
    refine ⟨⟨f.kind, f.text, p⟩ :: lexemes, ?_, ?_⟩
    · rw [htext, List.cons_append]
      refine scan_cons_eq_ok_iff.2 (.inr ⟨hc, f.kind, tail.length, lexemes, hstart', ?_, ?_⟩)
      · rw [List.drop_left]
        exact hscan
      · rw [List.take_left]
    · rw [List.map_cons, hforms]
      rfl

end Lexeme

end Stencil
