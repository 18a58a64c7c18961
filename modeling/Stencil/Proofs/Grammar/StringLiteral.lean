import Stencil.Proofs.Grammar.Parse
import Stencil.Proofs.Segmentation

/-!
# String literals

Any text can be written between quotes of either sort (`exists_encodes`), and however it is written, it is read as itself
(`Expr.parse_quotes`). The other way round, every string in an expression quotes a text (`Lexeme.quotes_of_scan`), and the texts in
the tree of the expression are those that its strings quote, from left to right (`Expr.Derives.texts_eq`).
-/

namespace Stencil

/-- `Quotes raw value`: between two quotes of one sort, the raw text has a body that spells the value. -/
def Quotes (raw value : Text) : Prop :=
  ∃ quote body, (quote = '"' ∨ quote = '\'') ∧ raw = quote :: (body ++ [quote]) ∧ Encodes quote body value

/-- Every text can be spelled between quotes of either sort. -/
theorem exists_encodes {quote : Char} (hquote : quote = '"' ∨ quote = '\'') (value : Text) :
    ∃ body, Encodes quote body value := by
  have hletter : ∀ letter ∈ [quote, '\\'], ∀ d, (letter, d) ∉ controlLetters := by
    rcases hquote with rfl | rfl <;> simp [controlLetters]
  induction value with
  | nil => exact ⟨[], .nil⟩
  | cons c value ih =>
    obtain ⟨body, hbody⟩ := ih
    by_cases hc : c ∈ [quote, '\\']
    · exact ⟨_, .escaped (hletter c hc) hbody⟩
    · rw [List.mem_pair, not_or] at hc
      exact ⟨_, .plain hc.1 hc.2 hbody⟩

theorem Quotes.unescape_eq {raw value : Text} (h : Quotes raw value) : Expr.unescape (raw.drop 1).dropLast = value := by
  obtain ⟨quote, body, -, rfl, hbody⟩ := h
  rw [List.drop_succ_cons, List.drop_zero, List.dropLast_concat, hbody.unescape_eq]

namespace Lexeme

theorem Spelled.quotes {raw : Text} (h : Spelled .string raw) : ∃ value, Quotes raw value := by
  cases h with
  | @string quote body value hquote hbody => exact ⟨value, quote, body, hquote, rfl, hbody⟩

/-- The strings among some lexemes. -/
def strings (ts : List Lexeme) : List Text := (ts.filter (·.kind = .string)).map (·.text)

variable {l : Lexeme} {ts ts' : List Lexeme} {expression : Text}

theorem strings_nil : strings [] = [] := rfl

theorem strings_append : strings (ts ++ ts') = strings ts ++ strings ts' := by
  rw [strings, List.filter_append, List.map_append]
  rfl

theorem strings_cons_string (h : l.kind = .string) : strings (l :: ts) = l.text :: strings ts := by
  rw [strings, List.filter_cons_of_pos (by simpa using h)]
  rfl

theorem strings_cons (h : l.kind ≠ .string) : strings (l :: ts) = strings ts := by
  rw [strings, List.filter_cons_of_neg (by simpa using h)]
  rfl

theorem strings_cons_symbol {s : Text} (h : l.isSymbol s) : strings (l :: ts) = strings ts :=
  strings_cons (by rw [(Expr.isSymbol_iff.1 h).1]; decide)

/-- Every string of an expression quotes a text. -/
theorem quotes_of_scan (h : scan 0 expression = .ok ts) : ∀ raw ∈ strings ts, ∃ value, Quotes raw value := by
  intro raw hraw
  obtain ⟨l, hl, rfl⟩ := List.mem_map.1 hraw
  obtain ⟨hl, hk⟩ := List.mem_filter.1 hl
  have hlongest := ((scan_eq_ok_iff (Nat.zero_le _)).1 h).longest l hl
  rw [of_decide_eq_true hk] at hlongest
  exact hlongest.spelled.quotes

end Lexeme

namespace Expr

open Lexeme (strings strings_nil strings_append strings_cons strings_cons_symbol)

/-- A quoted text is read as the text. -/
theorem parse_quotes {raw value : Text} (h : Quotes raw value) : parse raw = .ok (.literal (.text value)) := by
  have hscan : Lexeme.scan 0 raw = .ok [⟨.string, raw, 0⟩] := by
    obtain ⟨quote, body, hquote, rfl, hbody⟩ := h
    obtain ⟨c, tail, htext, hblank, hstart⟩ := Lexeme.Form.stands_string hquote hbody
    cases htext
    exact Lexeme.scan_single hblank hstart
  rw [← h.unescape_eq]
  exact (parse_eq_ok_iff hscan _).2 (.expression (.ofPrimary (.string (l := ⟨.string, raw, 0⟩) rfl)))

/-! ## The texts in a tree -/

mutual

/-- The texts in an expression, from left to right. -/
def texts : Expr → List Text
  | literal (.text t) => [t]
  | literal _ | var _ | name _ => []
  | member target _ => texts target
  | call callee arguments => texts callee ++ textsAll arguments
  | unary _ operand => texts operand
  | binary _ left right | logical _ left right => texts left ++ texts right

/-- The texts in a list of expressions. -/
def textsAll : List Expr → List Text
  | [] => []
  | e :: rest => texts e ++ textsAll rest

end

/-- The texts in a phrase. -/
def Phrase.texts : Phrase → List Text
  | .level _ e | .suffixed e | .primary e => e.texts
  | .arguments es | .others es => textsAll es

theorem texts_node (op : InfixOp) (left right : Expr) : (op.node left right).texts = left.texts ++ right.texts := by
  cases op <;> rfl

/-- The texts in a phrase are those of its strings, in their order. By induction on how the phrase is derived. -/
theorem Derives.texts_eq {phrase : Phrase} {ts : List Lexeme} (h : Derives phrase ts) :
    phrase.texts = (strings ts).map fun raw => unescape (raw.drop 1).dropLast := by
  have hother : ∀ {l : Lexeme} {kind : Lexeme.Kind}, l.kind = kind → kind ≠ .string → strings [l] = [] :=
    fun h hk => strings_cons (h ▸ hk)
  induction h with
  | number hk =>
    rw [hother hk (by decide)]
    rfl
  | string hk =>
    rw [Lexeme.strings_cons_string hk]
    rfl
  | var hk =>
    rw [hother hk (by decide)]
    rfl
  | @keyword l value hk hvalue =>
    rw [hother hk (by decide)]
    simp only [keywords, List.mem_cons, Prod.mk.injEq, List.not_mem_nil, or_false] at hvalue
    rcases hvalue with ⟨-, rfl⟩ | ⟨-, rfl⟩ | ⟨-, rfl⟩ <;> rfl
  | name hk =>
    rw [hother hk (by decide)]
    rfl
  | group ho _ hc ih =>
    rw [strings_cons_symbol ho, strings_append, strings_cons_symbol hc, strings_nil, List.append_nil]
    exact ih
  | ofPrimary _ ih => exact ih
  | @member e ts point key _ hp hk ih =>
    rw [strings_append, strings_cons_symbol hp, hother hk (by decide), List.append_nil]
    exact ih
  | call _ ho _ hc ih iharguments =>
    rw [strings_append, strings_cons_symbol ho, strings_append, strings_cons_symbol hc, strings_nil, List.append_nil,
      List.map_append, ← ih, ← iharguments]
    rfl
  | noArguments => rfl
  | someArguments _ _ ih ihothers =>
    rw [strings_append, List.map_append, ← ih, ← ihothers]
    rfl
  | noOthers => rfl
  | someOthers hcomma _ _ ih ihothers =>
    rw [strings_cons_symbol hcomma, strings_append, List.map_append, ← ih, ← ihothers]
    rfl
  | ofSuffixed _ ih => exact ih
  | signed hk _ _ ih =>
    rw [strings_cons (by rw [hk]; decide)]
    exact ih
  | ofTighter _ ih => exact ih
  | joined _ hk _ _ ih ihright =>
    rw [strings_append, strings_cons (by rw [hk]; decide), List.map_append, ← ih, ← ihright]
    exact texts_node _ _ _

/-- Every text can be written as a string between quotes of either sort, and each such string is read as the text. In every
expression, what is read as a string is written like that: the parser makes of it the text that it quotes, and the texts in the
tree are those that the strings quote, in their order. -/
theorem string_literals :
    (∀ quote value, quote = '"' ∨ quote = '\'' → (∃ body, Encodes quote body value) ∧
      ∀ body, Encodes quote body value → parse (quote :: (body ++ [quote])) = .ok (.literal (.text value))) ∧
    ∀ expression lexemes, Lexeme.lex expression = .ok lexemes →
      (∀ l ∈ lexemes, l.kind = .string → ∃ value, Quotes l.text value ∧
        ∀ stop rest, outcome (primary stop (l :: rest)) = .ok (.literal (.text value), rest)) ∧
      ∀ e, parse expression = .ok e → List.Forall₂ Quotes (strings lexemes) e.texts := by
  refine ⟨fun quote value hquote => ⟨exists_encodes hquote value, fun body hbody => ?_⟩, fun expression lexemes h => ?_⟩
  · exact parse_quotes ⟨quote, body, hquote, rfl, hbody⟩
  · obtain ⟨ts, hscan, hlexemes⟩ := bind_ok_iff.1 h
    obtain rfl := Except.ok.inj hlexemes
    have hstrings : strings (ts ++ [⟨.finish, [], expression.length⟩]) = strings ts := by
      rw [strings_append, strings_cons (l := ⟨.finish, _, _⟩) (show Lexeme.Kind.finish ≠ .string by decide), strings_nil,
        List.append_nil]
    have hquotes := Lexeme.quotes_of_scan hscan
    refine ⟨fun l hl hk => ?_, fun e he => ?_⟩
    · have hraw : l.text ∈ strings ts := hstrings ▸ List.mem_map_of_mem (List.mem_filter.2 ⟨hl, decide_eq_true hk⟩)
      obtain ⟨value, hvalue⟩ := hquotes _ hraw
      refine ⟨value, hvalue, fun stop rest => ?_⟩
      rw [outcome_primary, hk, ← hvalue.unescape_eq]
    · have htexts : e.texts = _ := ((parse_eq_ok_iff hscan e).1 he).texts_eq
      rw [hstrings, htexts, List.forall₂_map_right_iff, List.forall₂_same]
      intro raw hraw
      obtain ⟨value, hvalue⟩ := hquotes raw hraw
      rwa [hvalue.unescape_eq]

/-- An apostrophe between single quotes. -/
theorem string_literals_apostrophe :
    parse "'it\\'s'" = .ok (.literal (.text "it's")) ∧ List.Forall₂ Quotes ["'it\\'s'"] ["it's"] := by
  have hbody : Encodes '\'' ['i', 't', '\\', '\'', 's'] ['i', 't', '\'', 's'] :=
    .plain (by decide) (by decide) (.plain (by decide) (by decide)
      (.escaped (by simp [controlLetters]) (.plain (by decide) (by decide) .nil)))
  have hparse := (string_literals.1 '\'' _ (.inr rfl)).2 _ hbody
  have hread : Lexeme.lex ['\'', 'i', 't', '\\', '\'', 's', '\''] =
      .ok [⟨.string, ['\'', 'i', 't', '\\', '\'', 's', '\''], 0⟩, ⟨.finish, [], 7⟩] := by
    rw [Lexeme.lex, Lexeme.scan_single (k := .string) rfl rfl]
    rfl
  exact ⟨hparse, (string_literals.2 _ _ hread).2 _ hparse⟩

end Expr

end Stencil
