import Stencil.Proofs.Grammar.Parse
import Stencil.Proofs.Spacing

/-!
# Expressions with blanks between their lexemes

What the grammar says of lexemes hangs on their forms alone (`Derives.of_forms`), and in whatever it derives, each lexeme can be
told apart from the next (`Derives.runs`). So an expression may be written with blanks anywhere between its lexemes, or with none
(`parse_of_spaced`).
-/

namespace Stencil.Expr

open Lexeme (Form)

/-! ## Positions do not matter -/

theorem isSymbol_iff_form {l : Lexeme} {s : Text} : l.isSymbol s ↔ l.form = ⟨.symbol, s⟩ := by
  rw [isSymbol_iff, Lexeme.form, Form.mk.injEq]

theorem isSymbol_of_form {l l' : Lexeme} {s : Text} (h : l.isSymbol s) (hform : l'.form = l.form) : l'.isSymbol s :=
  isSymbol_iff_form.2 (hform.trans (isSymbol_iff_form.1 h))

/-- Lexemes with the forms of one list after another are lists with those forms, one after another. -/
theorem exists_append_of_forms {ts ts' all : List Lexeme}
    (h : all.map Lexeme.form = (ts ++ ts').map Lexeme.form) :
    ∃ us us', all = us ++ us' ∧ us.map Lexeme.form = ts.map Lexeme.form ∧ us'.map Lexeme.form = ts'.map Lexeme.form := by
  rw [List.map_append] at h
  exact List.map_eq_append_iff.1 h

/-- Lexemes with the forms of a first lexeme and others are a lexeme with that form, and others. -/
theorem exists_cons_of_forms {l : Lexeme} {ts all : List Lexeme} (h : all.map Lexeme.form = (l :: ts).map Lexeme.form) :
    ∃ l' us, all = l' :: us ∧ l'.form = l.form ∧ us.map Lexeme.form = ts.map Lexeme.form :=
  List.map_eq_cons_iff.1 h

/-- Lexemes with the forms of others between a first and a last one are lexemes with those forms, between two with theirs. -/
theorem exists_enclosed_of_forms {o c : Lexeme} {ts all : List Lexeme}
    (h : all.map Lexeme.form = (o :: (ts ++ [c])).map Lexeme.form) :
    ∃ o' us c', all = o' :: (us ++ [c']) ∧ o'.form = o.form ∧ us.map Lexeme.form = ts.map Lexeme.form ∧ c'.form = c.form := by
  obtain ⟨o', rest, rfl, ho, hrest⟩ := exists_cons_of_forms h
  obtain ⟨us, last, rfl, hus, hlast⟩ := exists_append_of_forms hrest
  obtain ⟨c', none, rfl, hc, hnone⟩ := exists_cons_of_forms hlast
  obtain rfl := List.map_eq_nil_iff.1 hnone
  exact ⟨o', us, c', rfl, ho, hus, hc⟩

/-- Lexemes of the same forms spell the same phrases. By induction on how a phrase is derived. -/
theorem Derives.of_forms {phrase : Phrase} {ts ts' : List Lexeme} (h : Derives phrase ts)
    (hforms : ts'.map Lexeme.form = ts.map Lexeme.form) : Derives phrase ts' := by
  have hsingle : ∀ {l : Lexeme} {ts' : List Lexeme}, ts'.map Lexeme.form = [l].map Lexeme.form →
      ∃ l', ts' = [l'] ∧ l'.kind = l.kind ∧ l'.text = l.text := by
    intro l ts' h
    obtain ⟨l', rest, rfl, hl, hrest⟩ := exists_cons_of_forms h
    obtain rfl := List.map_eq_nil_iff.1 hrest
    exact ⟨l', rfl, congrArg Form.kind hl, congrArg Form.text hl⟩
  induction h generalizing ts' with
  | number hk hn =>
    obtain ⟨l', rfl, hkind, htext⟩ := hsingle hforms
    exact .number (hkind.trans hk) (htext ▸ hn)
  | string hk =>
    obtain ⟨l', rfl, hkind, htext⟩ := hsingle hforms
    exact htext ▸ .string (hkind.trans hk)
  | var hk =>
    obtain ⟨l', rfl, hkind, htext⟩ := hsingle hforms
    exact htext ▸ .var (hkind.trans hk)
  | keyword hk hvalue =>
    obtain ⟨l', rfl, hkind, htext⟩ := hsingle hforms
    exact .keyword (hkind.trans hk) (htext ▸ hvalue)
  | name hk hname =>
    obtain ⟨l', rfl, hkind, htext⟩ := hsingle hforms
    exact htext ▸ .name (hkind.trans hk) (htext ▸ hname)
  | group ho _ hc ih =>
    obtain ⟨o', inner, c', rfl, ho', hinner, hc'⟩ := exists_enclosed_of_forms hforms
    exact .group (isSymbol_of_form ho ho') (ih hinner) (isSymbol_of_form hc hc')
  | ofPrimary _ ih => exact .ofPrimary (ih hforms)
  | member _ hpoint hkey ih =>
    obtain ⟨target, last, rfl, htarget, hlast⟩ := exists_append_of_forms hforms
    obtain ⟨point', us, rfl, hpoint', hus⟩ := exists_cons_of_forms hlast
    obtain ⟨key', rfl, hkind, htext⟩ := hsingle hus
    exact htext ▸ .member (ih htarget) (isSymbol_of_form hpoint hpoint') (hkind.trans hkey)
  | call _ ho _ hc ih ihargs =>
    obtain ⟨callee, given, rfl, hcallee, hgiven⟩ := exists_append_of_forms hforms
    obtain ⟨o', inner, c', rfl, ho', hinner, hc'⟩ := exists_enclosed_of_forms hgiven
    exact .call (ih hcallee) (isSymbol_of_form ho ho') (ihargs hinner) (isSymbol_of_form hc hc')
  | noArguments =>
    obtain rfl := List.map_eq_nil_iff.1 hforms
    exact .noArguments
  | someArguments _ _ ih ihothers =>
    obtain ⟨first, others, rfl, hfirst, hothers⟩ := exists_append_of_forms hforms
    exact .someArguments (ih hfirst) (ihothers hothers)
  | noOthers =>
    obtain rfl := List.map_eq_nil_iff.1 hforms
    exact .noOthers
  | someOthers hcomma _ _ ih ihothers =>
    obtain ⟨comma', us, rfl, hcomma', hus⟩ := exists_cons_of_forms hforms
    obtain ⟨next, others, rfl, hnext, hothers⟩ := exists_append_of_forms hus
    exact .someOthers (isSymbol_of_form hcomma hcomma') (ih hnext) (ihothers hothers)
  | ofSuffixed _ ih => exact .ofSuffixed (ih hforms)
  | signed hk hop _ ih =>
    obtain ⟨l', us, rfl, hl, hus⟩ := exists_cons_of_forms hforms
    have hkind : l'.kind = _ := congrArg Form.kind hl
    have htext : l'.text = _ := congrArg Form.text hl
    exact .signed (hkind.trans hk) (htext ▸ hop) (ih hus)
  | ofTighter _ ih => exact .ofTighter (ih hforms)
  | joined _ hk hop _ ih ihright =>
    obtain ⟨left, us, rfl, hleft, hus⟩ := exists_append_of_forms hforms
    obtain ⟨l', right, rfl, hl, hright⟩ := exists_cons_of_forms hus
    have hkind : l'.kind = _ := congrArg Form.kind hl
    have htext : l'.text = _ := congrArg Form.text hl
    exact .joined (ih hleft) (hkind.trans hk) (htext ▸ hop) (ihright hright)

/-! ## Lexemes of an expression can be told apart -/

/-- Forms that can come behind a symbol other than a point. -/
def Leads (fs : List Form) : Prop := fs.IsChain Form.Adjacent ∧ ∃ f after, fs = f :: after ∧ f.Opens

/-- Forms that can come behind an operand. -/
def Follows (fs : List Form) : Prop := fs.IsChain Form.Adjacent ∧ ∀ f ∈ fs.head?, f.kind = .symbol

variable {f : Form} {fs : List Form}

theorem follows_of_isChain (h : (f :: fs).IsChain Form.Adjacent) (hk : f.kind = .symbol) : Follows (f :: fs) := by
  refine ⟨h, ?_⟩
  rintro _ ⟨⟩
  exact hk

theorem Follows.isChain_cons (h : Follows fs) (hf : f.kind ≠ .symbol ∨ f.text = ")") : (f :: fs).IsChain Form.Adjacent :=
  List.isChain_cons.2 ⟨fun _ hg => .behindOperand hf (h.2 _ hg), h.1⟩

/-- A symbol other than a point, and what can come behind it, can come behind an operand. -/
theorem Leads.follows_cons (h : Leads fs) (hk : f.kind = .symbol) (hp : f.text ≠ ".") : Follows (f :: fs) := by
  obtain ⟨hchain, g, after, rfl, hg⟩ := h
  exact follows_of_isChain (List.isChain_cons_cons.2 ⟨.behindSymbol hk hp hg, hchain⟩) hk

/-- How the forms of a phrase run on into those that can come after it. -/
def Phrase.Runs : Phrase → List Form → Prop
  | .level _ _, fs | .suffixed _, fs | .primary _, fs => ∀ rest, Follows rest → Leads (fs ++ rest)
  | .arguments _, fs => ∀ c rest, c = ⟨.symbol, ")"⟩ → Follows (c :: rest) → Leads (fs ++ c :: rest)
  | .others _, fs => ∀ c rest, c = ⟨.symbol, ")"⟩ → Follows (c :: rest) → Follows (fs ++ c :: rest)

/-- A closing parenthesis, and what can come behind an operand, can come behind an operand. -/
theorem Follows.cons_close (h : Follows fs) : Follows (⟨.symbol, ")"⟩ :: fs) :=
  follows_of_isChain (h.isChain_cons (.inr rfl)) rfl

/-- In every phrase, each lexeme can be told apart from the next. By induction on how the phrase is derived, in each case from the
last lexeme back to the first. -/
theorem Derives.runs {phrase : Phrase} {ts : List Lexeme} (h : Derives phrase ts) : phrase.Runs (ts.map Lexeme.form) := by
  have hoperand : ∀ {l : Lexeme}, l.kind ≠ .symbol → ∀ rest, Follows rest → Leads ([l].map Lexeme.form ++ rest) :=
    fun hk rest hrest => ⟨hrest.isChain_cons (.inl hk), _, rest, rfl, .inl hk⟩
  induction h with
  | number hk _ => exact hoperand (by rw [hk]; nofun)
  | string hk => exact hoperand (by rw [hk]; nofun)
  | var hk => exact hoperand (by rw [hk]; nofun)
  | keyword hk _ => exact hoperand (by rw [hk]; nofun)
  | name hk _ => exact hoperand (by rw [hk]; nofun)
  | @group o c e ts ho _ hc ih =>
    intro rest hrest
    have hinner := ih _ hrest.cons_close
    have hall := hinner.follows_cons (f := ⟨.symbol, "("⟩) rfl (by decide)
    rw [List.map_cons, List.map_append, List.map_singleton, isSymbol_iff_form.1 ho, isSymbol_iff_form.1 hc, List.cons_append,
      List.append_assoc, List.singleton_append]
    exact ⟨hall.1, _, _, rfl, .inr (by decide)⟩
  | ofPrimary _ ih => exact ih
  | @member e ts point key _ hp hk ih =>
    intro rest hrest
    have hkey : (key.form :: rest).IsChain Form.Adjacent := hrest.isChain_cons (.inl (by rw [Lexeme.form, hk]; nofun))
    have hpoint : Follows (⟨.symbol, "."⟩ :: key.form :: rest) :=
      follows_of_isChain (List.isChain_cons_cons.2 ⟨.beforeName rfl hk, hkey⟩) rfl
    rw [List.map_append, List.map_cons, List.map_singleton, isSymbol_iff_form.1 hp, List.append_assoc]
    exact ih _ hpoint
  | @call e es ts inner o c _ ho _ hc ih ihargs =>
    intro rest hrest
    have hgiven := ihargs _ rest rfl hrest.cons_close
    have hbehind := hgiven.follows_cons (f := ⟨.symbol, "("⟩) rfl (by decide)
    rw [List.map_append, List.map_cons, List.map_append, List.map_singleton, isSymbol_iff_form.1 ho, isSymbol_iff_form.1 hc,
      List.append_assoc, List.cons_append, List.append_assoc, List.singleton_append]
    exact ih _ hbehind
  | noArguments =>
    rintro c rest rfl hc
    exact ⟨hc.1, _, _, rfl, .inr (by decide)⟩
  | someArguments _ _ ih ihothers =>
    intro c rest hclose hc
    rw [List.map_append, List.append_assoc]
    exact ih _ (ihothers c rest hclose hc)
  | noOthers => exact fun c rest _ hc => hc
  | @someOthers e es ts after comma hcomma _ _ ih ihothers =>
    intro c rest hclose hc
    have hnext := ih _ (ihothers c rest hclose hc)
    rw [List.map_cons, List.map_append, isSymbol_iff_form.1 hcomma, List.cons_append, List.append_assoc]
    exact hnext.follows_cons rfl (by decide)
  | ofSuffixed _ ih => exact ih
  | @signed l op e ts hk hop _ ih =>
    intro rest hrest
    have hsign : ∀ entry ∈ signs, entry.1 ≠ ".".toList ∧ entry.1 ∈ ["(".toList, ")".toList, "-".toList, "!".toList] := by decide
    obtain ⟨hp, hopens⟩ := hsign _ hop
    exact ⟨((ih rest hrest).follows_cons (f := l.form) hk hp).1, _, _, rfl, .inr hopens⟩
  | ofTighter _ ih => exact ih
  | @joined k l op left right ts ts' _ hk hop _ ih ihright =>
    intro rest hrest
    have hp : l.text ≠ "." := by
      rw [(eq_of_mem_operators hop).1]
      rcases op with op | op <;> cases op <;> decide
    rw [List.map_append, List.append_assoc]
    exact ih _ ((ihright rest hrest).follows_cons (f := l.form) hk hp)

/-- An expression of the grammar may be written with blanks anywhere between its lexemes, or with none. -/
theorem parse_of_spaced {e : Expr} {ts : List Lexeme} {t : Text} (h : Derives (.level 6 e) ts)
    (hstand : ∀ l ∈ ts, l.form.Stands) (ht : Form.Spaced (ts.map Lexeme.form) t) : parse t = .ok e := by
  have hleads : Leads (ts.map Lexeme.form ++ []) := h.runs [] ⟨.nil, nofun⟩
  rw [List.append_nil] at hleads
  have hstands : ∀ f ∈ ts.map Lexeme.form, f.Stands := by
    intro f hf
    obtain ⟨l, hl, rfl⟩ := List.mem_map.1 hf
    exact hstand l hl
  obtain ⟨lexemes, hscan, hforms⟩ := Lexeme.scan_of_spaced ht hstands hleads.1 0
  exact (parse_eq_ok_iff hscan e).2 (h.of_forms hforms)

end Stencil.Expr
