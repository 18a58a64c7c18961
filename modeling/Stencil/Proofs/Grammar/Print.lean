import Stencil.Proofs.Grammar.Spacing

/-!
# Printing expressions

An expression is printed with parentheses only around an operand that holds together more loosely than its place allows
(`Expr.enclosed`). What is printed is read as the same expression, with blanks anywhere between the lexemes or with none
(`parse_print`), and nothing with fewer lexemes is (`Derives.size_le`), so that the tree needs all of the parentheses.
-/

namespace Stencil

open Lexeme (Form)

/-- A literal as it is printed. -/
def Literal.toForm : Literal → Form
  | null => ⟨.name, "null"⟩
  | bool b => ⟨.name, if b then "true" else "false"⟩
  | number (.int n) => ⟨.number, Text.integerNumeral n⟩
  | number (.float x) => ⟨.number, x.toText⟩
  | text t => ⟨.string, '"' :: (Text.escape t ++ ['"'])⟩

namespace Expr

/-- How loosely an expression holds together: least what nothing can get between, then what starts with a sign, then the infix
operators by their levels. -/
def looseness : Expr → Nat
  | .literal _ | .var _ | .name _ | .member _ _ | .call _ _ => 0
  | .unary _ _ => 1
  | .binary op _ _ => (InfixOp.binary op).level + 1
  | .logical op _ _ => (InfixOp.logical op).level + 1

/-- An expression at a place for expressions up to a looseness: a looser one is put in parentheses. -/
def enclosed (bound : Nat) (e : Expr) (fs : List Form) : List Form :=
  if e.looseness ≤ bound then fs else ⟨.symbol, "("⟩ :: (fs ++ [⟨.symbol, ")"⟩])

/-- An infix operator between its operands. The right one has to be tighter than the operator, as operators of a level group to
the left. -/
def joined (op : InfixOp) (left right : Expr) (fs gs : List Form) : List Form :=
  enclosed (op.level + 1) left fs ++ ⟨.symbol, op.symbol⟩ :: enclosed op.level right gs

mutual

/-- The lexemes of an expression as it is printed. -/
def forms : Expr → List Form
  | .literal value => [value.toForm]
  | .var n => [⟨.var, '$' :: n⟩]
  | .name n => [⟨.name, n⟩]
  | .member target key => enclosed 0 target target.forms ++ [⟨.symbol, "."⟩, ⟨.name, key⟩]
  | .call callee given => enclosed 0 callee callee.forms ++ ⟨.symbol, "("⟩ :: (argumentForms given ++ [⟨.symbol, ")"⟩])
  | .unary op operand => ⟨.symbol, op.symbol⟩ :: enclosed 1 operand operand.forms
  | .binary op left right => joined (.binary op) left right left.forms right.forms
  | .logical op left right => joined (.logical op) left right left.forms right.forms

/-- The arguments of a call as they are printed. -/
def argumentForms : List Expr → List Form
  | [] => []
  | e :: es => e.forms ++ otherForms es

/-- The arguments after the first one, each with the comma before it. -/
def otherForms : List Expr → List Form
  | [] => []
  | e :: es => ⟨.symbol, ","⟩ :: (e.forms ++ otherForms es)

end

/-- An expression as it is printed. -/
def print (e : Expr) : Text := e.forms.flatMap (·.text)

/-- The expressions that can be written down: names are names, those of the context and of members any, and an integer is neither
negative nor too long. -/
inductive Printable : Expr → Prop
  | null : Printable (.literal .null)
  | bool (b : Bool) : Printable (.literal (.bool b))
  | integer {n : Nat} : (Text.numeral n).length ≤ digitLimit → Printable (.literal (.number (.int n)))
  | text (t : Text) : Printable (.literal (.text t))
  | var {n : Text} : Text.isName n = true → Printable (.var n)
  | name {n : Text} : Text.isName n = true → (∀ value, (n, value) ∉ keywords) → Printable (.name n)
  | member {target : Expr} {key : Text} : Printable target → Text.isName key = true → Printable (.member target key)
  | call {callee : Expr} {given : List Expr} : Printable callee → (∀ e ∈ given, Printable e) → Printable (.call callee given)
  | unary {operand : Expr} (op : UnaryOp) : Printable operand → Printable (.unary op operand)
  | binary {left right : Expr} (op : BinaryOp) : Printable left → Printable right → Printable (.binary op left right)
  | logical {left right : Expr} (op : LogicalOp) : Printable left → Printable right → Printable (.logical op left right)

/-! ## What is printed spells the expression -/

/-- An expression at a place for expressions up to a looseness. -/
def Phrase.upTo : Nat → Expr → Phrase
  | 0 => .suffixed
  | k + 1 => .level k

/-- Forms that are lexemes, and that spell a phrase. -/
structure Phrase.SpelledBy (phrase : Phrase) (fs : List Form) : Prop where
  /-- They spell the phrase. -/
  derives : Derives phrase (fs.map Form.lexeme)
  /-- Each is a lexeme by itself. -/
  stands : ∀ f ∈ fs, f.Stands

variable {e left right : Expr} {es : List Expr} {fs gs : List Form} {a b : Nat}

/-- Every expression is one up to the loosest level. -/
theorem looseness_le (e : Expr) : e.looseness ≤ 7 := by
  have hlevel : ∀ op : InfixOp, op.level ≤ 6 := by
    intro op
    rcases op with op | op <;> cases op <;> decide
  cases e with
  | binary op left right => exact Nat.succ_le_succ (hlevel (.binary op))
  | logical op left right => exact Nat.succ_le_succ (hlevel (.logical op))
  | _ => simp [looseness]

namespace Phrase.SpelledBy

/-- What stands at a tight place stands at a looser one. -/
theorem loosen (h : (Phrase.upTo a e).SpelledBy fs) (hab : a ≤ b) : (Phrase.upTo b e).SpelledBy fs := by
  induction hab with
  | refl => exact h
  | @step b _ ih =>
    refine ⟨?_, h.stands⟩
    cases b with
    | zero => exact .ofSuffixed ih.derives
    | succ b => exact .ofTighter ih.derives

theorem expression (h : (Phrase.upTo e.looseness e).SpelledBy fs) : (Phrase.level 6 e).SpelledBy fs :=
  h.loosen (looseness_le e)

theorem single {f : Form} (hf : f.Stands) (h : Derives (.primary e) [f.lexeme]) : (Phrase.upTo 0 e).SpelledBy [f] :=
  ⟨.ofPrimary h, List.forall_mem_singleton.2 hf⟩

theorem stands_parentheses (h : ∀ f ∈ fs, f.Stands) : ∀ f ∈ (⟨.symbol, "("⟩ : Form) :: (fs ++ [⟨.symbol, ")"⟩]), f.Stands :=
  List.forall_mem_cons.2 ⟨Form.stands_symbol (by decide),
    List.forall_mem_append.2 ⟨h, List.forall_mem_singleton.2 (Form.stands_symbol (by decide))⟩⟩

/-- An expression stands at every place, in parentheses where it is too loose. -/
theorem enclosed (h : (Phrase.upTo e.looseness e).SpelledBy fs) (bound : Nat) :
    (Phrase.upTo bound e).SpelledBy (Expr.enclosed bound e fs) := by
  unfold Expr.enclosed
  split
  · rename_i hle
    exact h.loosen hle
  · have hgroup : (Phrase.upTo 0 e).SpelledBy (⟨.symbol, "("⟩ :: (fs ++ [⟨.symbol, ")"⟩])) := by
      refine ⟨.ofPrimary ?_, stands_parentheses h.stands⟩
      rw [List.map_cons, List.map_append]
      exact .group rfl h.expression.derives rfl
    exact hgroup.loosen (Nat.zero_le bound)

/-- A member of what stands at every place does so too. -/
theorem member (h : (Phrase.upTo 0 e).SpelledBy fs) {key : Text} (hkey : Text.isName key = true) :
    (Phrase.upTo 0 (.member e key)).SpelledBy (fs ++ [⟨.symbol, "."⟩, ⟨.name, key⟩]) := by
  refine ⟨?_, ?_⟩
  · rw [List.map_append]
    exact @Derives.member _ _ (Form.lexeme ⟨.symbol, "."⟩) (Form.lexeme ⟨.name, key⟩) h.derives rfl rfl
  · exact List.forall_mem_append.2 ⟨h.stands, List.forall_mem_cons.2 ⟨Form.stands_symbol (by decide),
      List.forall_mem_singleton.2 (Form.stands_name hkey)⟩⟩

/-- A call of what stands at every place does so too. -/
theorem call (h : (Phrase.upTo 0 e).SpelledBy fs) (hes : (Phrase.arguments es).SpelledBy gs) :
    (Phrase.upTo 0 (.call e es)).SpelledBy (fs ++ ⟨.symbol, "("⟩ :: (gs ++ [⟨.symbol, ")"⟩])) := by
  refine ⟨?_, List.forall_mem_append.2 ⟨h.stands, stands_parentheses hes.stands⟩⟩
  rw [List.map_append, List.map_cons, List.map_append]
  exact .call h.derives rfl hes.derives rfl

theorem unary (op : UnaryOp) (h : (Phrase.upTo 1 e).SpelledBy fs) :
    (Phrase.upTo 1 (.unary op e)).SpelledBy (⟨.symbol, op.symbol⟩ :: fs) := by
  have hsign : (op.symbol, op) ∈ signs ∧ op.symbol ∈ Lexeme.symbols := by cases op <;> decide
  exact ⟨.signed rfl hsign.1 h.derives, List.forall_mem_cons.2 ⟨Form.stands_symbol hsign.2, h.stands⟩⟩

/-- An infix operator between an operand of its level and a tighter one. -/
theorem joined (op : InfixOp) (hl : (Phrase.upTo (op.level + 1) left).SpelledBy fs)
    (hr : (Phrase.upTo op.level right).SpelledBy gs) :
    (Phrase.upTo (op.level + 1) (op.node left right)).SpelledBy (fs ++ ⟨.symbol, op.symbol⟩ :: gs) := by
  have hmem := mem_operators op
  have hsymbol : op.symbol ∈ Lexeme.symbols := by rcases op with op | op <;> cases op <;> decide
  obtain ⟨k, hk⟩ : ∃ k, op.level = k + 1 := by rcases op with op | op <;> cases op <;> exact ⟨_, rfl⟩
  refine ⟨?_, List.forall_mem_append.2 ⟨hl.stands, List.forall_mem_cons.2 ⟨Form.stands_symbol hsymbol, hr.stands⟩⟩⟩
  rw [hk] at hl hr hmem ⊢
  rw [List.map_append, List.map_cons]
  exact .joined hl.derives rfl hmem hr.derives

/-- Arguments after the first one. -/
theorem others (h : ∀ e ∈ es, (Phrase.upTo e.looseness e).SpelledBy e.forms) : (Phrase.others es).SpelledBy (otherForms es) := by
  induction es with
  | nil => exact ⟨.noOthers, nofun⟩
  | cons e es ih =>
    obtain ⟨he, hes⟩ := List.forall_mem_cons.1 h
    have hothers := ih hes
    refine ⟨?_, List.forall_mem_cons.2 ⟨Form.stands_symbol (by decide), List.forall_mem_append.2 ⟨he.stands, hothers.stands⟩⟩⟩
    rw [otherForms, List.map_cons, List.map_append]
    exact .someOthers rfl he.expression.derives hothers.derives

/-- The arguments of a call. -/
theorem arguments (h : ∀ e ∈ es, (Phrase.upTo e.looseness e).SpelledBy e.forms) :
    (Phrase.arguments es).SpelledBy (argumentForms es) := by
  cases es with
  | nil => exact ⟨.noArguments, nofun⟩
  | cons e es =>
    obtain ⟨he, hes⟩ := List.forall_mem_cons.1 h
    have hothers := others hes
    refine ⟨?_, List.forall_mem_append.2 ⟨he.stands, hothers.stands⟩⟩
    rw [argumentForms, List.map_append]
    exact .someArguments he.expression.derives hothers.derives

end Phrase.SpelledBy

/-- What is printed spells the expression. By induction on the expression. -/
theorem Printable.spelledBy (h : e.Printable) : (Phrase.upTo e.looseness e).SpelledBy e.forms := by
  induction h with
  | null => exact .single (Form.stands_name rfl) (.keyword rfl (by decide))
  | bool b => cases b <;> exact .single (Form.stands_name rfl) (.keyword rfl (by decide))
  | @integer n hn =>
    have hnumeral : Text.integerNumeral n = Text.numeral n := by
      rw [Text.integerNumeral, if_neg (Int.not_lt.2 (Int.natCast_nonneg n)), Int.natAbs_natCast]
    have hstand : Form.Stands ⟨.number, Text.numeral n⟩ := Form.stands_number (Numeral.written_numeral n)
    rw [forms, Literal.toForm, hnumeral]
    exact .single hstand (.number rfl (readNumber_numeral hn))
  | text t =>
    have hbody := Text.encodes_escape t
    have hread := Derives.string (l := Form.lexeme (Literal.text t).toForm) rfl
    have hvalue : unescape (((Literal.text t).toForm.text.drop 1).dropLast) = t := by
      rw [Literal.toForm, List.drop_succ_cons, List.drop_zero, List.dropLast_concat, hbody.unescape_eq]
    rw [Form.lexeme, hvalue] at hread
    exact .single (Form.stands_string (.inl rfl) hbody) hread
  | @var n hn => exact .single (Form.stands_var hn) (Derives.var (l := Form.lexeme ⟨.var, '$' :: n⟩) rfl)
  | @name n hn hno => exact .single (Form.stands_name hn) (Derives.name (l := Form.lexeme ⟨.name, n⟩) rfl hno)
  | member _ hkey ih => exact (ih.enclosed 0).member hkey
  | call _ _ ih ihgiven => exact (ih.enclosed 0).call (.arguments ihgiven)
  | unary op _ ih => exact (ih.enclosed 1).unary op
  | binary op _ _ ihl ihr => exact .joined (.binary op) (ihl.enclosed _) (ihr.enclosed _)
  | logical op _ _ ihl ihr => exact .joined (.logical op) (ihl.enclosed _) (ihr.enclosed _)

/-! ## Nothing shorter spells the expression -/

/-- Parentheses are two lexemes. -/
theorem length_enclosed (a : Nat) (e : Expr) (fs : List Form) :
    (enclosed a e fs).length = fs.length + if e.looseness ≤ a then 0 else 2 := by
  unfold enclosed
  split
  · rfl
  · rw [List.length_cons, List.length_append, List.length_singleton]

theorem length_enclosed_mono (hab : a ≤ b) : (enclosed b e fs).length ≤ (enclosed a e fs).length := by
  rw [length_enclosed, length_enclosed]
  split <;> split <;> omega

/-- How many lexemes of a phrase are printed. -/
def Phrase.size : Phrase → Nat
  | .level k e => (enclosed (k + 1) e e.forms).length
  | .suffixed e | .primary e => (enclosed 0 e e.forms).length
  | .arguments es => (argumentForms es).length
  | .others es => (otherForms es).length

/-- No phrase is spelled with fewer lexemes than are printed. By induction on how it is derived. -/
theorem Derives.size_le {phrase : Phrase} {ts : List Lexeme} (h : Derives phrase ts) : phrase.size ≤ ts.length := by
  have hbare : ∀ {a : Nat} {e : Expr}, e.looseness ≤ a → (enclosed a e e.forms).length = e.forms.length :=
    fun hle => congrArg _ (if_pos hle)
  have hwhole : ∀ e : Expr, (Phrase.level 6 e).size = e.forms.length := fun e => hbare (looseness_le e)
  induction h with
  | number | string | var | keyword | name => exact Nat.le_refl 1
  | @group o c e ts _ _ _ ih =>
    have hparens : (Phrase.primary e).size = _ := length_enclosed 0 e e.forms
    rw [hwhole] at ih
    rw [hparens, List.length_cons, List.length_append, List.length_singleton]
    split <;> omega
  | ofPrimary _ ih => exact ih
  | @member e ts point key _ _ _ ih =>
    have hall : (Phrase.suffixed (.member e key.text)).size = (Phrase.suffixed e).size + 2 :=
      (hbare (Nat.le_refl 0)).trans List.length_append
    rw [hall, List.length_append]
    exact Nat.add_le_add_right ih 2
  | @call e es ts inner o c _ _ _ _ ih ihargs =>
    have hall : (Phrase.suffixed (.call e es)).size = (Phrase.suffixed e).size + ((Phrase.arguments es).size + 1 + 1) := by
      refine (hbare (Nat.le_refl 0)).trans ?_
      rw [forms, List.length_append, List.length_cons, List.length_append]
      rfl
    rw [hall, List.length_append, List.length_cons, List.length_append, List.length_singleton]
    omega
  | noArguments | noOthers => exact Nat.zero_le _
  | @someArguments e es ts after _ _ ih ihothers =>
    rw [hwhole] at ih
    have hall : (Phrase.arguments (e :: es)).size = e.forms.length + (Phrase.others es).size := List.length_append
    rw [hall, List.length_append]
    exact Nat.add_le_add ih ihothers
  | @someOthers e es ts after comma _ _ _ ih ihothers =>
    rw [hwhole] at ih
    have hall : (Phrase.others (e :: es)).size = e.forms.length + (Phrase.others es).size + 1 :=
      congrArg Nat.succ List.length_append
    rw [hall, List.length_cons, List.length_append]
    exact Nat.succ_le_succ (Nat.add_le_add ih ihothers)
  | ofSuffixed _ ih => exact Nat.le_trans (length_enclosed_mono (Nat.zero_le _)) ih
  | @signed l op e ts _ _ _ ih =>
    have hall : (Phrase.level 0 (.unary op e)).size = (Phrase.level 0 e).size + 1 := hbare (Nat.le_refl 1)
    rw [hall, List.length_cons]
    exact Nat.succ_le_succ ih
  | ofTighter _ ih => exact Nat.le_trans (length_enclosed_mono (Nat.le_succ _)) ih
  | @joined k l op left right ts ts' _ _ hop _ ih ihright =>
    have hk := (eq_of_mem_operators hop).2
    have hforms : (op.node left right).forms = Expr.joined op left right left.forms right.forms := by cases op <;> rfl
    have hloose : (op.node left right).looseness = k + 1 + 1 := by
      rw [hk]
      cases op <;> rfl
    have hall : (Phrase.level (k + 1) (op.node left right)).size =
        (Phrase.level (k + 1) left).size + ((Phrase.level k right).size + 1) := by
      refine (hbare (Nat.le_of_eq hloose)).trans ?_
      rw [hforms, Expr.joined, ← hk, List.length_append, List.length_cons]
      rfl
    rw [hall, List.length_append, List.length_cons]
    exact Nat.add_le_add ih (Nat.succ_le_succ ihright)

/-- Parsing undoes printing, whatever blanks are put between the lexemes, and no expression with fewer lexemes is parsed as the
same tree: there are no parentheses that the tree does not need. -/
theorem parse_print (h : e.Printable) :
    parse e.print = .ok e ∧ (∀ t, Form.Spaced e.forms t → parse t = .ok e) ∧
      ∀ t lexemes, Lexeme.scan 0 t = .ok lexemes → parse t = .ok e → e.forms.length ≤ lexemes.length := by
  have hspelled := h.spelledBy.expression
  have hforms : (e.forms.map Form.lexeme).map Lexeme.form = e.forms := by
    rw [List.map_map, show Lexeme.form ∘ Form.lexeme = id from funext Lexeme.form_lexeme, List.map_id]
  have hspaced : ∀ t, Form.Spaced e.forms t → parse t = .ok e := by
    intro t ht
    refine parse_of_spaced hspelled.derives (fun l hl => ?_) (by rw [hforms]; exact ht)
    obtain ⟨f, hf, rfl⟩ := List.mem_map.1 hl
    exact hspelled.stands f hf
  refine ⟨hspaced _ (Form.spaced_flatMap e.forms), hspaced, fun t lexemes hscan hparse => ?_⟩
  have hsize := ((parse_eq_ok_iff hscan e).1 hparse).size_le
  exact Nat.le_trans (Nat.le_of_eq (congrArg List.length (if_pos (looseness_le e)).symm)) hsize

/-- A tree with a difference on the right of another one, a sign before a call, a member of an integer and a quote in a string. -/
theorem parse_print_nested :
    let e : Expr := .binary .multiply
      (.binary .subtract (.var "a") (.binary .subtract (.var "b") (.member (.literal (.number (.int 5))) "x")))
      (.unary .negate (.member (.call (.name "f") [.literal (.text "\"\\"), .literal .null]) "true"))
    e.Printable ∧ e.print = "($a-($b-5.x))*-f(\"\\\"\\\\\",null).true" ∧ parse e.print = .ok e := by
  intro e
  have hright : Printable (.binary .subtract (.var "b") (.member (.literal (.number (.int 5))) "x")) :=
    .binary _ (.var rfl) (.member (Printable.integer (n := 5) (by decide)) rfl)
  have hgiven : ∀ e ∈ [Expr.literal (.text "\"\\"), .literal .null], e.Printable :=
    List.forall_mem_cons.2 ⟨.text _, List.forall_mem_singleton.2 .null⟩
  have hname : ∀ value, ("f".toList, value) ∉ keywords := by
    intro value hvalue
    simp [keywords] at hvalue
  have h : e.Printable :=
    .binary _ (.binary _ (.var rfl) hright) (.unary _ (.member (.call (.name rfl hname) hgiven) rfl))
  exact ⟨h, by decide, (parse_print h).1⟩

end Expr

end Stencil
