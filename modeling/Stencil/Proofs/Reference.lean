import Stencil.Evaluation.Basic
import Stencil.Proofs.Assignment
import Stencil.Proofs.Grammar.Parse
import Stencil.Proofs.Lexeme
import Stencil.Proofs.Partition.Scan
import Stencil.Template.Reference

/-!
# References

A text refers to a name where a dollar sign and the name stand in it and the name does not go on (`RefersTo`). Every name that
is looked up while a template is rendered is one that the template refers to, whichever part of it does so: the pieces of a span
of text, the tree of an expression and the target of an assignment hold such names only, and no part of a template is cut in the
middle of a name.
-/

namespace Stencil

/-- A text refers to a name: a dollar sign and the name stand in it, and the name does not go on. -/
def RefersTo (t name : Text) : Prop :=
  Text.isName name = true ∧
    ∃ before after : Text, t = before ++ '$' :: (name ++ after) ∧ ∀ c ∈ after.head?, Text.isNamePart c = false

theorem refersTo_of_takeName? {rest name after : Text} (h : Text.takeName? rest = some (name, after)) (before : Text) :
    RefersTo (before ++ '$' :: rest) name := by
  obtain ⟨rfl, hname, hafter⟩ := Text.takeName?_eq_some_iff.1 h
  exact ⟨hname, before, after, rfl, hafter⟩

/-- A text refers to the names that a part of it refers to, unless a name could go on after the part. -/
theorem RefersTo.append {t name : Text} (h : RefersTo t name) (before after : Text)
    (hafter : ∀ c ∈ after.head?, Text.isNamePart c = false) : RefersTo (before ++ (t ++ after)) name := by
  obtain ⟨hname, front, back, rfl, hback⟩ := h
  refine ⟨hname, before ++ front, back ++ after, by simp, fun c hc => ?_⟩
  cases back with
  | nil => exact hafter c hc
  | cons d back => exact hback c hc

theorem RefersTo.append_left {t name : Text} (h : RefersTo t name) (before : Text) : RefersTo (before ++ t) name := by
  have happ := h.append before [] nofun
  rwa [List.append_nil] at happ

/-! ## Spans of text -/

namespace Piece

/-- A character in front of pieces adds no reference. -/
theorem reference_mem_pushChar {c : Char} {name : Text} {pieces : List Piece} :
    reference name ∈ pushChar c pieces ↔ reference name ∈ pieces := by
  cases pieces with
  | nil => simp [pushChar]
  | cons piece pieces => cases piece <;> simp [pushChar]

/-- The pieces of a text are references to names that it refers to. -/
theorem refersTo_of_mem_ofText {t name : Text} (h : reference name ∈ ofText t) : RefersTo t name := by
  induction t using ofText.induct with
  | case1 =>
    rw [ofText] at h
    cases h
  | case2 rest found after htake ih =>
    rw [ofText, if_pos rfl, htake] at h
    rcases List.mem_cons.1 h with heq | h
    · cases heq
      exact refersTo_of_takeName? htake []
    · obtain ⟨rfl, -, -⟩ := Text.takeName?_eq_some_iff.1 htake
      have := (ih h).append_left ('$' :: found)
      simpa using this
  | case3 rest htake ih =>
    rw [ofText, if_pos rfl, htake, reference_mem_pushChar] at h
    exact (ih h).append_left ['$']
  | case4 c rest hc ih =>
    rw [ofText, if_neg hc, reference_mem_pushChar] at h
    exact (ih h).append_left [c]

/-- What is taken after a dollar sign stops before the next one. -/
theorem append_of_takeName? {rest found after before t : Text} (htake : Text.takeName? rest = some (found, after))
    (h : rest = before ++ '$' :: t) : ∃ between, before = found ++ between ∧ rest.drop found.length = between ++ '$' :: t := by
  obtain ⟨rfl, hname, -⟩ := Text.takeName?_eq_some_iff.1 htake
  rw [List.drop_left]
  obtain ⟨between, rfl, rfl⟩ | ⟨between, rfl, hdollar⟩ := List.append_eq_append_iff.1 h
  · exact ⟨between, rfl, rfl⟩
  · cases between with
    | nil => exact ⟨[], by simp, hdollar.symm⟩
    | cons c between =>
      cases hdollar
      exact absurd (Text.isNamePart_of_mem hname (List.mem_append_right _ List.mem_cons_self)) (by decide)

/-- The names that a text refers to are references among its pieces. -/
theorem mem_ofText_of_refersTo {t name : Text} (h : RefersTo t name) : reference name ∈ ofText t := by
  obtain ⟨hname, before, after, ht, hafter⟩ := h
  induction t using ofText.induct generalizing before with
  | case1 => simp at ht
  | case2 rest found follows htake ih =>
    rw [ofText, if_pos rfl, htake]
    cases before with
    | nil =>
      cases ht
      rw [Text.takeName?_eq_some_iff.2 ⟨rfl, hname, hafter⟩] at htake
      cases htake
      exact List.mem_cons_self
    | cons c before =>
      cases ht
      obtain ⟨between, rfl, hrest⟩ := append_of_takeName? htake rfl
      exact List.mem_cons_of_mem _ (ih between hrest)
  | case3 rest htake ih =>
    rw [ofText, if_pos rfl, htake, reference_mem_pushChar]
    cases before with
    | nil =>
      cases ht
      rw [Text.takeName?_eq_some_iff.2 ⟨rfl, hname, hafter⟩] at htake
      cases htake
    | cons c before =>
      cases ht
      exact ih before rfl
  | case4 c rest hc ih =>
    rw [ofText, if_neg hc, reference_mem_pushChar]
    cases before with
    | nil =>
      cases ht
      exact absurd rfl hc
    | cons c' before =>
      cases ht
      exact ih before rfl

/-- The references among the pieces of a text are the names that it refers to. -/
theorem mem_ofText_iff {t name : Text} : reference name ∈ ofText t ↔ RefersTo t name :=
  ⟨refersTo_of_mem_ofText, mem_ofText_of_refersTo⟩

end Piece

variable {values values' : Entries Value}

/-- Interpolation looks up the names that the text refers to, and no others. -/
theorem interpolate_congr [World] {t : Text} (h : ∀ name, RefersTo t name → Entries.get? name values = Entries.get? name values') :
    interpolate values t = interpolate values' t := by
  have hwritten : ∀ pieces : List Piece, (∀ piece ∈ pieces, piece.written values = piece.written values') →
      pieces.mapM (Piece.written values) = pieces.mapM (Piece.written values') := by
    intro pieces hp
    induction pieces with
    | nil => rfl
    | cons piece pieces ih =>
      rw [List.mapM_cons, List.mapM_cons, hp piece List.mem_cons_self,
        ih fun q hq => hp q (List.mem_cons_of_mem _ hq)]
  unfold interpolate
  rw [hwritten]
  intro piece hpiece
  cases piece with
  | literal s => rfl
  | reference name =>
    simp only [Piece.written, h name (Piece.refersTo_of_mem_ofText hpiece)]

/-! ## Expressions -/

namespace Expr

mutual

/-- The names of the references in an expression. -/
def references : Expr → List Text
  | literal _ | name _ => []
  | var key => [key]
  | member target _ => references target
  | call callee arguments => references callee ++ referencesAll arguments
  | unary _ operand => references operand
  | binary _ left right | logical _ left right => references left ++ references right

/-- The names of the references in a list of expressions. -/
def referencesAll : List Expr → List Text
  | [] => []
  | e :: rest => references e ++ referencesAll rest

end

mutual

/-- Evaluation looks up the names of the references, and no others. -/
theorem eval_congr [World] :
    (e : Expr) → (∀ name ∈ e.references, Entries.get? name values = Entries.get? name values') →
      e.eval values = e.eval values'
  | literal _, _ | name _, _ => rfl
  | var key, h => by
    rw [eval, eval, Value.lookup, Value.lookup, h key (List.mem_singleton.2 rfl)]
  | member target key, h => by
    rw [eval, eval, eval_congr target h]
  | call callee arguments, h => by
    rw [eval, eval, eval_congr callee fun x hx => h x (List.mem_append_left _ hx),
      evalAll_congr arguments fun x hx => h x (List.mem_append_right _ hx)]
  | unary op operand, h => by
    rw [eval, eval, eval_congr operand h]
  | binary op left right, h => by
    rw [eval, eval, eval_congr left fun x hx => h x (List.mem_append_left _ hx),
      eval_congr right fun x hx => h x (List.mem_append_right _ hx)]
  | logical op left right, h => by
    have hleft := eval_congr left fun x hx => h x (List.mem_append_left _ hx)
    have hright := eval_congr right fun x hx => h x (List.mem_append_right _ hx)
    cases op <;> rw [eval, eval, hleft, hright]

/-- The same of a list of expressions. -/
theorem evalAll_congr [World] :
    (es : List Expr) → (∀ name ∈ referencesAll es, Entries.get? name values = Entries.get? name values') →
      evalAll values es = evalAll values' es
  | [], _ => rfl
  | e :: rest, h => by
    rw [evalAll, evalAll, eval_congr e fun x hx => h x (List.mem_append_left _ hx),
      evalAll_congr rest fun x hx => h x (List.mem_append_right _ hx)]

end

/-- The names of the references in a phrase. -/
def Phrase.references : Phrase → List Text
  | .level _ e | .suffixed e | .primary e => e.references
  | .arguments es | .others es => referencesAll es

theorem references_node (op : InfixOp) (left right : Expr) :
    (op.node left right).references = left.references ++ right.references := by
  cases op <;> rfl

/-- One of some lexemes spells a reference to a name. -/
def Spells (ts : List Lexeme) (name : Text) : Prop := ∃ l ∈ ts, l.kind = .var ∧ l.text.drop 1 = name

theorem Spells.mono {part whole : List Lexeme} {name : Text} (h : Spells part name) (hsub : part ⊆ whole) :
    Spells whole name := by
  obtain ⟨l, hl, hvar⟩ := h
  exact ⟨l, hsub hl, hvar⟩

/-- What two parts of some lexemes spell is spelled by them all. -/
theorem spells_of_mem_append {names names' : List Text} {part part' whole : List Lexeme} (h : ∀ x ∈ names, Spells part x)
    (h' : ∀ x ∈ names', Spells part' x) (hsub : part ⊆ whole) (hsub' : part' ⊆ whole) :
    ∀ x ∈ names ++ names', Spells whole x := by
  intro x hx
  rcases List.mem_append.1 hx with hx | hx
  · exact (h x hx).mono hsub
  · exact (h' x hx).mono hsub'

/-- Every reference in a phrase is spelled by one of its lexemes. -/
theorem Derives.spells {phrase : Phrase} {ts : List Lexeme} (h : Derives phrase ts) :
    ∀ name ∈ phrase.references, Spells ts name := by
  induction h with
  | number _ _ => exact fun _ hx => absurd hx List.not_mem_nil
  | string _ => exact fun _ hx => absurd hx List.not_mem_nil
  | keyword _ _ => exact fun _ hx => absurd hx List.not_mem_nil
  | name _ _ => exact fun _ hx => absurd hx List.not_mem_nil
  | noArguments => exact fun _ hx => absurd hx List.not_mem_nil
  | noOthers => exact fun _ hx => absurd hx List.not_mem_nil
  | @var l hl =>
    intro x hx
    exact ⟨l, List.mem_singleton.2 rfl, hl, (List.mem_singleton.1 hx).symm⟩
  | group _ _ _ ih => exact fun x hx => (ih x hx).mono fun l hl => by simp [hl]
  | ofPrimary _ ih => exact ih
  | member _ _ _ ih => exact fun x hx => (ih x hx).mono fun l hl => by simp [hl]
  | call _ _ _ _ ihcallee iharguments =>
    exact spells_of_mem_append ihcallee iharguments (fun l hl => by simp [hl]) (fun l hl => by simp [hl])
  | someArguments _ _ ihe ihes =>
    exact spells_of_mem_append ihe ihes (fun l hl => by simp [hl]) (fun l hl => by simp [hl])
  | someOthers _ _ _ ihe ihes =>
    exact spells_of_mem_append ihe ihes (fun l hl => by simp [hl]) (fun l hl => by simp [hl])
  | ofSuffixed _ ih => exact ih
  | signed _ _ _ ih => exact fun x hx => (ih x hx).mono fun l hl => by simp [hl]
  | ofTighter _ ih => exact ih
  | joined _ _ _ _ ihleft ihright =>
    rw [Phrase.references, references_node]
    exact spells_of_mem_append ihleft ihright (fun l hl => by simp [hl]) (fun l hl => by simp [hl])

/-- A lexeme of a reference is a dollar sign and a name that the expression refers to. -/
theorem refersTo_of_mem_scan {p : Nat} {t : Text} {ts : List Lexeme} (h : Lexeme.scan p t = .ok ts) {l : Lexeme}
    (hl : l ∈ ts) (hvar : l.kind = .var) : RefersTo t (l.text.drop 1) := by
  obtain ⟨before, c, rest, n, rfl, hs, htext⟩ := Lexeme.mem_scan h l hl
  rw [hvar] at hs
  cases hs with
  | @var name after hc htake =>
    obtain ⟨hrest, -, -⟩ := Text.takeName?_eq_some_iff.1 htake
    rw [htext, List.drop_succ_cons, List.drop_zero, hrest, List.take_left, ← hrest, hc]
    exact refersTo_of_takeName? htake before

/-- An expression that is read refers to the names of its references. -/
theorem refersTo_of_parse {t : Text} {e : Expr} (h : parse t = .ok e) : ∀ name ∈ e.references, RefersTo t name := by
  intro name hname
  obtain ⟨ts, hs, -⟩ := bind_ok_iff.1 h
  obtain ⟨l, hl, hvar, rfl⟩ := ((parse_eq_ok_iff hs e).1 h).spells name hname
  exact refersTo_of_mem_scan hs hl hvar

end Expr

/-- The evaluation of a text looks up the names that it refers to, and no others. -/
theorem evaluate_congr [World] {t : Text} (h : ∀ name, RefersTo t name → Entries.get? name values = Entries.get? name values') :
    evaluate values t = evaluate values' t := by
  unfold evaluate
  cases hp : Expr.parse t with
  | error e => rfl
  | ok e => exact Expr.eval_congr e fun name hname => h name (Expr.refersTo_of_parse hp name hname)

/-! ## Assignments -/

/-- The body of an assignment refers to the names that its expression refers to. -/
theorem Assignment.Written.refersTo {a : Assignment} {body name : Text} (h : a.Written body)
    (hname : RefersTo a.expression name) : RefersTo body name := by
  obtain ⟨before, between, after, -, -, -, hbody⟩ := h.body
  have hend : body = (before ++ '$' :: (a.name ++ (between ++ '=' :: after))) ++ a.expression := by
    rw [hbody]
    simp
  rw [hend]
  exact hname.append_left _

/-! ## Templates -/

namespace Token

/-- The text that a token holds. -/
def Form.body : Form → Text
  | .text t | .set t | .cond t | .elseCond t => t
  | .otherwise | .finish => []

theorem not_refersTo_hash (name : Text) : ¬ RefersTo ['#'] name := by
  rintro ⟨-, before, after, heq, -⟩
  have hmem : '$' ∈ ['#'] := heq ▸ by simp
  exact absurd hmem (by decide)

/-- The content of a directive is followed by its closing parenthesis, so no name in it is cut. -/
theorem Parenthesized.refersTo {sign content piece name : Text} (h : Parenthesized sign content piece)
    (hname : RefersTo content name) (before after : Text) : RefersTo (before ++ (piece ++ after)) name := by
  obtain ⟨⟨gap, -, rfl⟩, -⟩ := h
  have happ := hname.append (before ++ (sign ++ (gap ++ ['(']))) (')' :: after) fun c hc => by cases hc; rfl
  simpa using happ

/-- A template refers to the names that the text of a token refers to. -/
theorem Fits.refersTo {template name : Text} {token : Token} {stop : Nat} (h : token.Fits template stop)
    (hname : RefersTo token.form.body name) : RefersTo template name := by
  have htemplate : template =
      template.take token.offset ++ (template.extract token.offset stop ++ template.drop stop) := by
    have hlt := h.lt.1
    have hdrop : template.drop stop = (template.drop token.offset).drop (stop - token.offset) := by
      rw [List.drop_drop]
      congr 1
      omega
    rw [List.extract_eq_take_drop, hdrop, List.take_append_drop, List.take_append_drop]
  obtain ⟨hs, hc⟩ := h
  rw [htemplate]
  obtain ⟨o, form⟩ := token
  cases form with
  | text t =>
    obtain ⟨-, hpiece⟩ := hs
    rw [hpiece]
    rcases hc with ⟨-, hnext⟩ | ⟨rfl, -⟩
    · refine hname.append _ _ fun c hc => ?_
      rw [hnext c hc]
      rfl
    · exact absurd hname (not_refersTo_hash name)
  | set body => exact Parenthesized.refersTo hs hname _ _
  | cond condition => exact Parenthesized.refersTo hs hname _ _
  | elseCond condition => exact Parenthesized.refersTo hs hname _ _
  | otherwise =>
    obtain ⟨-, before, after, heq, -⟩ := hname
    exact absurd heq.symm (by simp [Form.body])
  | finish =>
    obtain ⟨-, before, after, heq, -⟩ := hname
    exact absurd heq.symm (by simp [Form.body])

/-- A template refers to the names that its tokens refer to. -/
theorem refersTo_of_mem_tokenize {template : Text} {tokens : List Token} (h : tokenize template = .ok tokens)
    {token : Token} (hm : token ∈ tokens) {name : Text} (hname : RefersTo token.form.body name) :
    RefersTo template name := by
  obtain ⟨before, after, rfl⟩ := List.append_of_mem hm
  exact ((tokenize_eq_ok_iff.1 h).fits before token after rfl).refersTo hname

end Token

end Stencil
