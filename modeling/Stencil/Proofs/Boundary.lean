import Stencil.Proofs.Grammar.Parse
import Stencil.Proofs.Lexeme
import Stencil.Proofs.Partition.Scan

/-!
# Expressions between the parentheses of a directive

A directive ends where its parentheses match, counted without regard to quotes, so an expression can be written in one exactly if
its own parentheses match in this way (`tokenize_opener_iff`). The grammar sees to that everywhere but inside of quoted strings:
an expression is balanced if each of its strings is (`Expr.balanced_of_parse`).
-/

namespace Stencil

/-! ## Balanced texts -/

/-- Whether a character is a parenthesis. -/
def isParenthesis (c : Char) : Bool := c = '(' || c = ')'

/-- There is no parenthesis in a text. -/
def Unparenthesized (t : Text) : Prop := t.filter isParenthesis = []

instance (t : Text) : Decidable (Unparenthesized t) := inferInstanceAs (Decidable (t.filter isParenthesis = []))

/-- There is no parenthesis in a text exactly if none of its characters is one. -/
theorem unparenthesized_iff {t : Text} : Unparenthesized t ↔ ∀ c ∈ t, isParenthesis c = false := by
  simp only [Unparenthesized, List.filter_eq_nil_iff, Bool.not_eq_true]

namespace Token

variable {depth : Int} {content : Text}

theorem Closes.pos (h : Closes depth content) : 0 < depth := by
  have hp := h.1 [] List.nil_prefix
  simpa using hp

/-- Whether parentheses match hangs on the parentheses alone. -/
theorem closes_filter_iff : Closes depth (content.filter isParenthesis) ↔ Closes depth content := by
  induction content generalizing depth with
  | nil => rfl
  | cons c content ih =>
    cases hc : isParenthesis c with
    | true => rw [List.filter_cons_of_pos hc, closes_cons_iff, closes_cons_iff, ih]
    | false =>
      have hzero : depthChange c = 0 := by
        simp only [isParenthesis, Bool.or_eq_false_iff, decide_eq_false_iff_not] at hc
        rw [depthChange, if_neg hc.1, if_neg hc.2]
      rw [List.filter_cons_of_neg (by simp [hc]), closes_cons_iff, hzero, Int.add_zero, ih]
      exact ⟨fun h => ⟨h.pos, h⟩, And.right⟩

/-- Two contents one after the other, the first of which leaves the parentheses open that the second closes. -/
theorem Closes.append {depth' : Int} {content' : Text} (h : Closes depth content) (h' : Closes depth' content') :
    Closes (depth + depth' - 1) (content ++ content') := by
  induction content generalizing depth with
  | nil =>
    have hdepth : depth + depth' - 1 = depth' := by
      have hcount := h.2
      simp only [List.count_nil] at hcount
      omega
    rw [hdepth]
    exact h'
  | cons c content ih =>
    obtain ⟨hpos, hrest⟩ := closes_cons_iff.1 h
    have hpos' := h'.pos
    refine closes_cons_iff.2 ⟨by omega, ?_⟩
    have hdepth : depth + depth' - 1 + depthChange c = depth + depthChange c + depth' - 1 := by omega
    rw [hdepth]
    exact ih hrest

end Token

namespace Balanced

variable {s t : Text}

/-- Whether a text is balanced hangs on its parentheses alone. -/
theorem filter_iff : Balanced (t.filter isParenthesis) ↔ Balanced t := by
  rw [← Token.closes_one_iff, ← Token.closes_one_iff, Token.closes_filter_iff]

theorem of_unparenthesized (h : Unparenthesized t) : Balanced t := by
  rw [← filter_iff, h]
  exact ⟨fun p hp => by simp [List.prefix_nil.1 hp], rfl⟩

theorem append (hs : Balanced s) (ht : Balanced t) : Balanced (s ++ t) := by
  rw [← Token.closes_one_iff] at hs ht ⊢
  exact hs.append ht

theorem enclose (h : Balanced t) : Balanced ('(' :: (t ++ [')'])) := by
  have hclose : Token.Closes 2 [')'] := Token.closes_cons_iff.2 ⟨by decide, Token.closes_one_iff.2 (of_unparenthesized rfl)⟩
  rw [← Token.closes_one_iff, Token.closes_cons_iff]
  exact ⟨by decide, (Token.closes_one_iff.2 h).append hclose⟩

/-- A text without parentheses in front of another makes no difference. -/
theorem append_iff (hs : Unparenthesized s) : Balanced (s ++ t) ↔ Balanced t := by
  rw [← filter_iff, List.filter_append, hs, List.nil_append, filter_iff]

end Balanced

/-- A text is balanced exactly if a parenthesis after it is the one that closes a parenthesis before it. -/
theorem balanced_iff_closingIndex? {t : Text} :
    Token.closingIndex? 1 (t ++ [')']) = some t.length ↔ Balanced t := by
  rw [Token.closingIndex?_eq_some_iff Int.one_pos, ← Token.closes_one_iff]
  constructor
  · rintro ⟨content, after, heq, hclose, hlen⟩
    obtain ⟨rfl, -⟩ := List.append_inj heq hlen
    exact hclose
  · exact fun h => ⟨t, [], rfl, h, rfl⟩

instance (t : Text) : Decidable (Balanced t) := decidable_of_iff _ balanced_iff_closingIndex?

/-! ## Expressions -/

/-- A character of a kind that no parenthesis is of is none. -/
theorem isParenthesis_of (kind : Char → Bool) (ho : kind '(' = false) (hc : kind ')' = false) {c : Char}
    (h : kind c = true) : isParenthesis c = false := by
  rw [isParenthesis, Bool.or_eq_false_iff, decide_eq_false_iff_not, decide_eq_false_iff_not]
  constructor
  · rintro rfl
    exact Bool.false_ne_true (ho.symm.trans h)
  · rintro rfl
    exact Bool.false_ne_true (hc.symm.trans h)

theorem isParenthesis_of_isNamePart {c : Char} (h : Text.isNamePart c = true) : isParenthesis c = false :=
  isParenthesis_of Text.isNamePart rfl rfl h

theorem unparenthesized_of_isName {name : Text} (h : Text.isName name = true) : Unparenthesized name := by
  rw [unparenthesized_iff]
  intro c hc
  exact isParenthesis_of_isNamePart (Text.isNamePart_of_mem h hc)

namespace Lexeme

/-- There is no parenthesis in a number, a reference or a name. -/
theorem unparenthesized_of_mem_scan {p : Nat} {t : Text} {ts : List Lexeme} (h : scan p t = .ok ts) {l : Lexeme}
    (hl : l ∈ ts) (hstring : l.kind ≠ .string) (hsymbol : l.kind ≠ .symbol) : Unparenthesized l.text := by
  obtain ⟨before, c, rest, n, -, hs, htext⟩ := mem_scan h l hl
  rw [htext]
  cases hk : l.kind with
  | string => exact absurd hk hstring
  | symbol => exact absurd hk hsymbol
  | finish =>
    rw [hk] at hs
    cases hs
  | number =>
    rw [hk] at hs
    cases hs with
    | @number numeral after htake =>
      obtain ⟨heq, hwritten, -⟩ := Numeral.take?_eq_some_iff.1 htake
      have hnumeral : c :: rest.take (numeral.text.length - 1) = numeral.text := by
        obtain ⟨d, tail, hcons, -⟩ := hwritten.text_eq_cons
        rw [hcons, List.cons_append] at heq
        cases heq
        rw [hcons, List.length_cons, Nat.add_sub_cancel, List.take_left]
      rw [hnumeral]
      refine unparenthesized_iff.2 fun d hd => ?_
      rcases hwritten.mem_text hd with hdigit | rfl
      · exact isParenthesis_of Text.isDigit rfl rfl hdigit
      · rfl
  | var =>
    rw [hk] at hs
    cases hs with
    | @var name after hc htake =>
      obtain ⟨rfl, hname, -⟩ := Text.takeName?_eq_some_iff.1 htake
      rw [List.take_left]
      refine unparenthesized_iff.2 fun d hd => ?_
      rcases List.mem_cons.1 hd with rfl | hd
      · rw [hc]
        rfl
      · exact unparenthesized_iff.1 (unparenthesized_of_isName hname) d hd
  | name =>
    rw [hk] at hs
    cases hs with
    | name hc =>
      rw [← List.prefix_iff_eq_take.1 (rest.takeWhile_prefix Text.isNamePart)]
      refine unparenthesized_iff.2 fun d hd => ?_
      rcases List.mem_cons.1 hd with rfl | hd
      · exact isParenthesis_of_isNamePart (Text.isNamePart_of_isNameStart hc)
      · exact isParenthesis_of_isNamePart (List.all_eq_true.1 List.all_takeWhile d hd)

theorem text_of_isSymbol {l : Lexeme} {symbol : Text} (h : l.isSymbol symbol = true) : l.text = symbol := by
  rw [isSymbol, Bool.and_eq_true, decide_eq_true_iff, decide_eq_true_iff] at h
  exact h.2

end Lexeme

namespace Expr

theorem unparenthesized_of_mem_operators {k : Nat} {symbol : Text} {op : InfixOp} (h : (symbol, op) ∈ operators k) :
    Unparenthesized symbol := by
  obtain ⟨rfl, -⟩ := eq_of_mem_operators h
  rcases op with op | op <;> cases op <;> decide

/-- The lexemes of a phrase are balanced all together if each that is no symbol is. -/
theorem Derives.balanced {phrase : Phrase} {ts : List Lexeme} (h : Derives phrase ts)
    (hts : ∀ l ∈ ts, l.kind ≠ .symbol → Balanced l.text) : Balanced (ts.flatMap (·.text)) := by
  have hone : ∀ {l : Lexeme} {kind : Lexeme.Kind}, l.kind = kind → kind ≠ .symbol →
      (∀ l' ∈ [l], l'.kind ≠ .symbol → Balanced l'.text) → Balanced ([l].flatMap (·.text)) := by
    rintro l kind rfl hl hl'
    rw [List.flatMap_singleton]
    exact hl' l (List.mem_singleton_self l) hl
  induction h with
  | number hk _ => exact hone hk nofun hts
  | string hk => exact hone hk nofun hts
  | var hk => exact hone hk nofun hts
  | keyword hk _ => exact hone hk nofun hts
  | name hk _ => exact hone hk nofun hts
  | group ho _ hc ih =>
    have hinner := ih fun l hl => hts l (by simp [hl])
    simpa [Lexeme.text_of_isSymbol ho, Lexeme.text_of_isSymbol hc] using hinner.enclose
  | ofPrimary _ ih => exact ih hts
  | @member e ts point key _ hpoint hkey ih =>
    have htarget := ih fun l hl => hts l (by simp [hl])
    have hname := hts key (by simp) (by simp [hkey])
    have hdot : Balanced ('.' :: key.text) := (Balanced.append_iff (s := ['.']) rfl).2 hname
    simpa [Lexeme.text_of_isSymbol hpoint] using htarget.append hdot
  | call _ ho _ hc ihcallee iharguments =>
    have hcallee := ihcallee fun l hl => hts l (by simp [hl])
    have hinner := iharguments fun l hl => hts l (by simp [hl])
    simpa [Lexeme.text_of_isSymbol ho, Lexeme.text_of_isSymbol hc] using hcallee.append hinner.enclose
  | noArguments => exact .of_unparenthesized rfl
  | someArguments _ _ ihe ihes =>
    rw [List.flatMap_append]
    exact (ihe fun l hl => hts l (by simp [hl])).append (ihes fun l hl => hts l (by simp [hl]))
  | noOthers => exact .of_unparenthesized rfl
  | someOthers hcomma _ _ ihe ihes =>
    rw [List.flatMap_cons, List.flatMap_append, Lexeme.text_of_isSymbol hcomma, Balanced.append_iff (by decide)]
    exact (ihe fun l hl => hts l (by simp [hl])).append (ihes fun l hl => hts l (by simp [hl]))
  | ofSuffixed _ ih => exact ih hts
  | signed _ hsign _ ih =>
    have hsigns : ∀ entry ∈ signs, Unparenthesized entry.1 := by decide
    rw [List.flatMap_cons, Balanced.append_iff (hsigns _ hsign)]
    exact ih fun l hl => hts l (by simp [hl])
  | ofTighter _ ih => exact ih hts
  | joined _ _ hop _ ihleft ihright =>
    rw [List.flatMap_append, List.flatMap_cons]
    refine (ihleft fun l hl => hts l (by simp [hl])).append ?_
    rw [Balanced.append_iff (unparenthesized_of_mem_operators hop)]
    exact ihright fun l hl => hts l (by simp [hl])

/-- An expression that is read is balanced if each of its quoted strings is. -/
theorem balanced_of_parse {t : Text} {e : Expr} {ts : List Lexeme} (h : parse t = .ok e) (ht : Lexeme.lex t = .ok ts)
    (hstrings : ∀ l ∈ ts, l.kind = .string → Balanced l.text) : Balanced t := by
  obtain ⟨lexemes, hscan, heq⟩ := bind_ok_iff.1 ht
  cases heq
  have hall : ∀ l ∈ lexemes, l.kind ≠ .symbol → Balanced l.text := by
    intro l hl hsymbol
    by_cases hstring : l.kind = .string
    · exact hstrings l (List.mem_append_left _ hl) hstring
    · exact .of_unparenthesized (Lexeme.unparenthesized_of_mem_scan hscan hl hstring hsymbol)
  -- Between the lexemes there is nothing but blanks, so the text has the parentheses of its lexemes.
  have hblank : ∀ c, Text.isBlank c = true → isParenthesis c = false :=
    fun c hc => isParenthesis_of Text.isBlank rfl rfl hc
  rw [← Balanced.filter_iff, Lexeme.filter_of_scan hblank hscan, Balanced.filter_iff]
  exact ((parse_eq_ok_iff hscan e).1 h).balanced hall

end Expr

/-! ## Directives -/

namespace Token

/-- A directive is read as the one token of its content exactly if the content is balanced. -/
theorem tokenize_opener_iff (opener : Opener) (content : Text) :
    tokenize ('#' :: (opener.keyword ++ '(' :: (content ++ [')']))) = .ok [⟨0, opener.form content⟩] ↔
      Balanced content := by
  rw [tokenize_eq_ok_iff, partition_cons_iff]
  constructor
  · rintro ⟨-, stop, hfits, -⟩
    exact ((source_form ..).1 hfits.1).2
  · intro h
    refine ⟨rfl, _, ⟨?_, canonical_form ..⟩, partition_length_iff.2 rfl⟩
    rw [source_form, List.extract_eq_take_drop, Nat.sub_zero, List.drop_zero, List.take_length]
    exact ⟨⟨[], nofun, rfl⟩, h⟩

/-- An expression can be written in a directive exactly if it is balanced, with its quoted strings read like any text; and an
expression that the parser accepts is balanced if each of its quoted strings is. -/
theorem tokenize_expression_iff {expression name : Text} {tree : Expr} (h : Expr.parse expression = .ok tree)
    (hname : Text.isName name = true) :
    (tokenize ("#if(".toList ++ (expression ++ [')'])) = .ok [⟨0, .cond expression⟩] ↔ Balanced expression) ∧
    (tokenize ("#set($".toList ++ (name ++ (" = ".toList ++ (expression ++ [')'])))) =
      .ok [⟨0, .set ('$' :: (name ++ (" = ".toList ++ expression)))⟩] ↔ Balanced expression) ∧
    (∀ ts, Lexeme.lex expression = .ok ts → (∀ l ∈ ts, l.kind = .string → Balanced l.text) → Balanced expression) := by
  refine ⟨tokenize_opener_iff .condition expression, ?_, fun ts ht => Expr.balanced_of_parse h ht⟩
  -- There is no parenthesis before the expression.
  have hcontent : Balanced ('$' :: (name ++ (" = ".toList ++ expression))) ↔ Balanced expression := calc
    Balanced ('$' :: (name ++ (" = ".toList ++ expression)))
      ↔ Balanced (name ++ (" = ".toList ++ expression)) := Balanced.append_iff (s := ['$']) rfl
    _ ↔ Balanced (" = ".toList ++ expression) := Balanced.append_iff (unparenthesized_of_isName hname)
    _ ↔ Balanced expression := Balanced.append_iff rfl
  rw [← hcontent, ← tokenize_opener_iff .assignment]
  simp [Opener.keyword, Opener.form]

/-- A group of a string that holds parentheses can be written in both directives. -/
theorem tokenize_expression_iff_string :
    let expression : Text := "(\"(b)\")"
    (Expr.parse expression = .ok (.literal (.text "(b)".toList)) ∧ Text.isName "x".toList = true) ∧
      tokenize ("#if(".toList ++ (expression ++ [')'])) = .ok [⟨0, .cond expression⟩] ∧
      tokenize ("#set($".toList ++ ("x".toList ++ (" = ".toList ++ (expression ++ [')'])))) =
        .ok [⟨0, .set ('$' :: ("x".toList ++ (" = ".toList ++ expression)))⟩] := by
  intro expression
  have hscan : Lexeme.scan 0 ['(', '"', '(', 'b', ')', '"', ')'] =
      .ok [⟨.symbol, "(", 0⟩, ⟨.string, "\"(b)\"", 1⟩, ⟨.symbol, ")", 6⟩] := by
    rw [Lexeme.scan_cons (n := 0) (k := .symbol) rfl rfl, List.drop_zero,
      Lexeme.scan_cons (n := 4) (k := .string) rfl rfl]
    simp only [List.drop_succ_cons, List.drop_zero]
    rw [Lexeme.scan_cons (n := 0) (k := .symbol) rfl rfl, List.drop_zero, Lexeme.scan]
    rfl
  have hlex : Lexeme.lex expression = .ok ([⟨.symbol, "(", 0⟩, ⟨.string, "\"(b)\"", 1⟩, ⟨.symbol, ")", 6⟩] ++
      [⟨.finish, [], 7⟩]) := by
    unfold Lexeme.lex
    rw [show Lexeme.scan 0 expression = _ from hscan]
    rfl
  have hstring : Expr.Derives (.primary (.literal (.text "(b)".toList))) [⟨.string, "\"(b)\"", 1⟩] :=
    .string (l := ⟨.string, "\"(b)\"", 1⟩) rfl
  have hgroup : Expr.Derives (.primary (.literal (.text "(b)".toList)))
      [⟨.symbol, "(", 0⟩, ⟨.string, "\"(b)\"", 1⟩, ⟨.symbol, ")", 6⟩] :=
    .group (o := ⟨.symbol, "(", 0⟩) (c := ⟨.symbol, ")", 6⟩) rfl (.expression (.ofPrimary hstring)) rfl
  have hparse : Expr.parse expression = .ok (.literal (.text "(b)".toList)) :=
    (Expr.parse_eq_ok_iff hscan _).2 (.expression (.ofPrimary hgroup))
  have hname : Text.isName "x".toList = true := rfl
  obtain ⟨hcond, hset, hstrings⟩ := tokenize_expression_iff hparse hname
  have hbalanced : Balanced expression := hstrings _ hlex (by decide)
  exact ⟨⟨hparse, hname⟩, hcond.2 hbalanced, hset.2 hbalanced⟩

/-- Quotes do not protect a parenthesis: where an expression is a string of one, the directive is closed in the middle of the
string. -/
theorem tokenize_quoted_parenthesis :
    let expression : Text := "\")\""
    Expr.parse expression = .ok (.literal (.text ")".toList)) ∧
      tokenize ("#if(".toList ++ (expression ++ [')'])) = .ok [⟨0, .cond "\""⟩, ⟨6, .text "\")"⟩] ∧
      tokenize ("#if(".toList ++ (expression ++ [')'])) ≠ .ok [⟨0, .cond expression⟩] := by
  intro expression
  have hlexemes : Lexeme.scan 0 ['"', ')', '"'] = .ok [⟨.string, "\")\"", 0⟩] := by
    rw [Lexeme.scan_cons (n := 2) (k := .string) rfl rfl]
    simp only [List.drop_succ_cons, List.drop_zero]
    rw [Lexeme.scan]
    rfl
  have hparse : Expr.parse expression = .ok (.literal (.text ")".toList)) :=
    (Expr.parse_eq_ok_iff hlexemes _).2 (.expression (.ofPrimary (.string (l := ⟨.string, "\")\"", 0⟩) rfl)))
  have hrest : scan 6 ['"', ')'] = .ok [⟨6, .text ['"', ')']⟩] := by
    refine scan_cons_eq_ok_iff.2 ⟨.text ['"', ')'], 1, [], rfl, ?_, rfl⟩
    rw [List.drop_succ_cons, List.drop_zero, scan]
  have htokens : scan 0 ['#', 'i', 'f', '(', '"', ')', '"', ')'] = .ok [⟨0, .cond "\""⟩, ⟨6, .text "\")"⟩] :=
    scan_cons_eq_ok_iff.2 ⟨.cond "\"", 5, _, rfl, hrest, rfl⟩
  refine ⟨hparse, htokens, fun heq => ?_⟩
  have hlength := congrArg List.length (Except.ok.inj (htokens.symm.trans heq))
  exact absurd hlength (by decide)

end Token

end Stencil
