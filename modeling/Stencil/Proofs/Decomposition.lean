import Stencil.Proofs.Interpolation

/-!
# Decompositions of a text

A text falls into literal pieces and, between any two of them, a reference that goes as far as it can (`Decomposes`). It does so in
one way, and interpolation writes the pieces as they are and, for each reference, the text of the value under its name
(`interpolate_decomposition`). What is written for a reference is not looked into.
-/

namespace Stencil

/-- No dollar sign of a piece stands before a character that a name may start with, where the text goes on with `next`. -/
def Plain (piece next : Text) : Prop :=
  ∀ before after : Text, piece = before ++ '$' :: after → ∀ c ∈ (after ++ next).head?, Text.isNameStart c = false

/-- A text falls into a literal piece and references, each a dollar sign and a name that does not go on, with a literal piece after
each. A piece may be empty. -/
inductive Decomposes : Text → Text → List (Text × Text) → Prop
  /-- There is no reference. -/
  | literal {t : Text} : Plain t [] → Decomposes t t []
  /-- The first reference stands behind the first piece. -/
  | reference {piece name rest next : Text} {others : List (Text × Text)} : Plain piece ('$' :: (name ++ rest)) →
      Text.isName name = true → (∀ c ∈ rest.head?, Text.isNamePart c = false) → Decomposes rest next others →
      Decomposes (piece ++ '$' :: (name ++ rest)) piece ((name, next) :: others)

/-- The text of the value under a name: nothing if there is no value or it is null. -/
def textUnder [World] (entries : Entries Value) (name : Text) : Except Obstacle Text :=
  match Entries.get? name entries with
  | none | some .null => .ok []
  | some v => v.toText

/-- The text of the value of a reference, and the literal piece after it. -/
def writtenBehind [World] (entries : Entries Value) (behind : Text × Text) : Except Obstacle Text :=
  inTurn (textUnder entries behind.1) (.ok behind.2)

/-! ## From left to right -/

theorem plain_nil (next : Text) : Plain [] next := by
  intro before after h
  simp at h

/-- A piece with one more character in front is plain if the character is no dollar sign before a name and the rest is plain. -/
theorem plain_cons_iff {c : Char} {piece next : Text} :
    Plain (c :: piece) next ↔ (c = '$' → Text.takeName? (piece ++ next) = none) ∧ Plain piece next := by
  constructor
  · intro h
    refine ⟨?_, fun before after heq => h (c :: before) after (by rw [heq, List.cons_append])⟩
    rintro rfl
    exact takeName?_eq_none_iff.2 (h [] piece rfl)
  · rintro ⟨hc, h⟩ before after heq
    cases before with
    | nil =>
      obtain ⟨rfl, rfl⟩ := List.cons.inj heq
      exact takeName?_eq_none_iff.1 (hc rfl)
    | cons d before => exact h before after (List.cons.inj heq).2

variable {c : Char} {rest name after first : Text} {others : List (Text × Text)}

/-- An empty text is an empty piece. -/
theorem decomposes_nil_iff : Decomposes [] first others ↔ first = [] ∧ others = [] := by
  constructor
  · generalize ht : ([] : Text) = t
    intro h
    cases h with
    | literal => exact ⟨ht ▸ rfl, rfl⟩
    | reference => simp at ht
  · rintro ⟨rfl, rfl⟩
    exact .literal (plain_nil [])

/-- A character that starts no reference belongs to the first piece. -/
theorem decomposes_cons_iff (hc : c = '$' → Text.takeName? rest = none) :
    Decomposes (c :: rest) first others ↔ ∃ piece, first = c :: piece ∧ Decomposes rest piece others := by
  constructor
  · generalize ht : c :: rest = t
    intro h
    cases h with
    | literal hplain =>
      subst ht
      exact ⟨rest, rfl, .literal (plain_cons_iff.1 hplain).2⟩
    | reference hplain hname hend h =>
      cases first with
      | nil =>
        -- The first piece is not empty, for the text does not start with a reference.
        obtain ⟨rfl, rfl⟩ := List.cons.inj ht
        rw [Text.takeName?_eq_some_iff.2 ⟨rfl, hname, hend⟩] at hc
        simp at hc
      | cons d piece =>
        obtain ⟨rfl, rfl⟩ := List.cons.inj ht
        exact ⟨piece, rfl, .reference (plain_cons_iff.1 hplain).2 hname hend h⟩
  · rintro ⟨piece, rfl, h⟩
    cases h with
    | literal hplain => exact .literal (plain_cons_iff.2 ⟨by rwa [List.append_nil], hplain⟩)
    | reference hplain hname hend h => exact .reference (plain_cons_iff.2 ⟨hc, hplain⟩) hname hend h

/-- A reference at the start of a text has an empty piece in front. -/
theorem decomposes_reference_iff (htake : Text.takeName? rest = some (name, after)) :
    Decomposes ('$' :: rest) first others ↔
      first = [] ∧ ∃ next others', others = (name, next) :: others' ∧ Decomposes after next others' := by
  obtain ⟨rfl, hname, hend⟩ := Text.takeName?_eq_some_iff.1 htake
  constructor
  · generalize ht : '$' :: (name ++ after) = t
    intro h
    cases h with
    | literal hplain =>
      subst ht
      have hnone := (plain_cons_iff.1 hplain).1 rfl
      rw [List.append_nil, htake] at hnone
      cases hnone
    | @reference _ name' rest' _ _ hplain hname' hend' h =>
      cases first with
      | nil =>
        have htake' := Text.takeName?_eq_some_iff.2 ⟨(List.cons.inj ht).2, hname', hend'⟩
        rw [htake] at htake'
        cases htake'
        exact ⟨rfl, _, _, rfl, h⟩
      | cons d piece =>
        obtain ⟨hd, hrest⟩ := List.cons.inj ht
        have hrest : name ++ after = piece ++ '$' :: (name' ++ rest') := hrest
        have hnone := (plain_cons_iff.1 hplain).1 hd.symm
        rw [← hrest, htake] at hnone
        cases hnone
  · rintro ⟨rfl, next, others, rfl, h⟩
    exact .reference (plain_nil _) hname hend h

/-! ## One decomposition, and what is written for it -/

/-- A text has a decomposition. By induction along its pieces. -/
theorem exists_decomposes (t : Text) : ∃ first others, Decomposes t first others := by
  induction t using Piece.ofText.induct with
  | case1 => exact ⟨[], [], decomposes_nil_iff.2 ⟨rfl, rfl⟩⟩
  | case2 rest name after htake ih =>
    obtain ⟨rfl, -, -⟩ := Text.takeName?_eq_some_iff.1 htake
    rw [List.drop_left] at ih
    obtain ⟨next, others, h⟩ := ih
    exact ⟨[], (name, next) :: others, (decomposes_reference_iff htake).2 ⟨rfl, next, others, rfl, h⟩⟩
  | case3 rest htake ih =>
    obtain ⟨piece, others, h⟩ := ih
    exact ⟨'$' :: piece, others, (decomposes_cons_iff fun _ => htake).2 ⟨piece, rfl, h⟩⟩
  | case4 c rest hc ih =>
    obtain ⟨piece, others, h⟩ := ih
    exact ⟨c :: piece, others, (decomposes_cons_iff fun heq => absurd heq hc).2 ⟨piece, rfl, h⟩⟩

/-- A text has one decomposition at most. By induction along its pieces. -/
theorem Decomposes.unique {t first first' : Text} {others others' : List (Text × Text)} (h : Decomposes t first others)
    (h' : Decomposes t first' others') : first = first' ∧ others = others' := by
  induction t using Piece.ofText.induct generalizing first first' others others' with
  | case1 =>
    obtain ⟨rfl, rfl⟩ := decomposes_nil_iff.1 h
    obtain ⟨rfl, rfl⟩ := decomposes_nil_iff.1 h'
    exact ⟨rfl, rfl⟩
  | case2 rest name after htake ih =>
    obtain ⟨rfl, next, others, rfl, hnext⟩ := (decomposes_reference_iff htake).1 h
    obtain ⟨rfl, next', others', rfl, hnext'⟩ := (decomposes_reference_iff htake).1 h'
    obtain ⟨rfl, -, -⟩ := Text.takeName?_eq_some_iff.1 htake
    rw [List.drop_left] at ih
    obtain ⟨rfl, rfl⟩ := ih hnext hnext'
    exact ⟨rfl, rfl⟩
  | case3 rest htake ih =>
    obtain ⟨piece, rfl, hpiece⟩ := (decomposes_cons_iff fun _ => htake).1 h
    obtain ⟨piece', rfl, hpiece'⟩ := (decomposes_cons_iff fun _ => htake).1 h'
    obtain ⟨rfl, rfl⟩ := ih hpiece hpiece'
    exact ⟨rfl, rfl⟩
  | case4 c rest hc ih =>
    obtain ⟨piece, rfl, hpiece⟩ := (decomposes_cons_iff fun heq => absurd heq hc).1 h
    obtain ⟨piece', rfl, hpiece'⟩ := (decomposes_cons_iff fun heq => absurd heq hc).1 h'
    obtain ⟨rfl, rfl⟩ := ih hpiece hpiece'
    exact ⟨rfl, rfl⟩

variable {entries : Entries Value}

section

variable [World]

/-- A reference is written as the text of the value under its name. -/
theorem written_reference (name : Text) : (Piece.reference name).written entries = textUnder entries name := by
  rw [textUnder]
  show ((Entries.get? name entries).getD .null).toText = _
  cases Entries.get? name entries with
  | none => rfl
  | some v => cases v <;> rfl

/-- A plain piece is written as it is. By induction on the piece. -/
theorem interpolate_plain {piece next : Text} (h : Plain piece next) :
    interpolate entries (piece ++ next) = inTurn (.ok piece) (interpolate entries next) := by
  induction piece with
  | nil => rw [List.nil_append, inTurn_nil]
  | cons c piece ih =>
    obtain ⟨hc, h⟩ := plain_cons_iff.1 h
    rw [List.cons_append, interpolate_cons hc, ih h, ← inTurn_assoc]
    rfl

/-- Interpolation writes the first piece, and then in turn the value of each reference and the piece after it. By induction on the
references. -/
theorem Decomposes.interpolate_eq {t : Text} (h : Decomposes t first others) :
    interpolate entries t = inTurn (.ok first) (eachInTurn (writtenBehind entries) others) := by
  induction h with
  | @literal t hplain =>
    have hwhole : interpolate entries (t ++ []) = inTurn (.ok t) (interpolate entries []) := interpolate_plain hplain
    rw [List.append_nil, interpolate_nil] at hwhole
    exact hwhole
  | @reference piece name rest next others hplain hname hend h ih =>
    have htake : Text.takeName? (name ++ rest) = some (name, rest) := Text.takeName?_eq_some_iff.2 ⟨rfl, hname, hend⟩
    rw [interpolate_plain hplain, interpolate_reference htake, ih, eachInTurn_cons, writtenBehind, written_reference,
      inTurn_assoc]

/-- Where each reference has a text, these texts and the pieces between them are written one after another. -/
theorem eachInTurn_writtenBehind {texts : Text → Text} (h : ∀ behind ∈ others, textUnder entries behind.1 = .ok (texts behind.1)) :
    eachInTurn (writtenBehind entries) others = .ok (others.flatMap fun behind => texts behind.1 ++ behind.2) := by
  induction others with
  | nil => rfl
  | cons behind others ih =>
    have hhere := h behind List.mem_cons_self
    have hrest := ih fun other hother => h other (List.mem_cons_of_mem _ hother)
    rw [eachInTurn_cons, hrest, writtenBehind, hhere]
    rfl

/-- A reference in the middle of a text: what stands before it, the text under its name as it is, and what stands after it. -/
theorem interpolate_around {before name after : Text} (hname : Text.isName name = true)
    (hend : ∀ c ∈ after.head?, Text.isNamePart c = false) :
    interpolate entries (before ++ '$' :: (name ++ after)) =
      inTurn (interpolate entries before) (inTurn (textUnder entries name) (interpolate entries after)) := by
  have hcut : ¬CutsReference before ('$' :: (name ++ after)) := by
    refine not_cutsReference_of_head fun c hc => ?_
    cases hc
    rfl
  have htake : Text.takeName? (name ++ after) = some (name, after) := Text.takeName?_eq_some_iff.2 ⟨rfl, hname, hend⟩
  rw [interpolate_append hcut, interpolate_reference htake, written_reference]

/-- What interpolation writes, for all entries. Every text has one decomposition, and what is written are its pieces as they are
and, for each reference in between, the text of the value under its name; so it is one text after another where all these values
have one, and otherwise the error of the first that has none. A text under a name is copied, whatever stands in it. And what is
written for two texts, one after the other, is what is written for each, unless the second starts with a character of a name and
the first ends with a dollar sign and characters of a name. -/
theorem interpolate_decomposition (entries : Entries Value) :
    (∀ t : Text, ∃ first others, Decomposes t first others ∧
      (∀ first' others', Decomposes t first' others' → first' = first ∧ others' = others) ∧
      interpolate entries t = inTurn (.ok first) (eachInTurn (writtenBehind entries) others) ∧
      ∀ texts : Text → Text, (∀ behind ∈ others, textUnder entries behind.1 = .ok (texts behind.1)) →
        interpolate entries t = .ok (first ++ others.flatMap fun behind => texts behind.1 ++ behind.2)) ∧
    (∀ before name after value : Text, Text.isName name = true → (∀ c ∈ after.head?, Text.isNamePart c = false) →
      Entries.get? name entries = some (.text value) →
      interpolate entries (before ++ '$' :: (name ++ after)) =
        inTurn (interpolate entries before) (inTurn (.ok value) (interpolate entries after))) ∧
    ∀ s t : Text, ¬CutsReference s t →
      interpolate entries (s ++ t) = inTurn (interpolate entries s) (interpolate entries t) := by
  refine ⟨fun t => ?_, fun before name after value hname hend hvalue => ?_, fun s t h => interpolate_append h⟩
  · obtain ⟨first, others, h⟩ := exists_decomposes t
    refine ⟨first, others, h, fun first' others' h' => h'.unique h, h.interpolate_eq, fun texts htexts => ?_⟩
    rw [h.interpolate_eq, eachInTurn_writtenBehind htexts]
    rfl
  · rw [interpolate_around hname hend, textUnder, hvalue]
    rfl

end

open scoped World in
/-- A reference behind a dollar sign, to a text that looks like another reference. -/
theorem interpolate_decomposition_dollars :
    let entries : Entries Value := [("x", .text "$y#end"), ("y", .bool true)]
    (Decomposes "a$$x$y." "a$" [("x", []), ("y", ".")] ∧ textUnder entries "x" = .ok "$y#end" ∧
      textUnder entries "y" = .ok "true" ∧ interpolate entries "a$$x$y." = .ok "a$$y#endtrue.") ∧
    (Text.isName "x" = true ∧ Text.isNamePart '$' = false ∧ Entries.get? "x" entries = some (.text "$y#end") ∧
      interpolate entries ("a$".toList ++ '$' :: ("x".toList ++ "$y".toList)) =
        inTurn (interpolate entries "a$") (inTurn (.ok "$y#end") (interpolate entries "$y"))) ∧
    ¬CutsReference "a$" "$x" ∧
      interpolate entries ("a$".toList ++ "$x".toList) = inTurn (interpolate entries "a$") (interpolate entries "$x") := by
  intro entries
  obtain ⟨hdecomposed, hcopied, hjoined⟩ := interpolate_decomposition entries
  have hstart : ∀ c ∈ ("$x".toList).head?, Text.isNamePart c = false := fun c hc => by
    cases hc
    rfl
  have hcut : ¬CutsReference "a$" "$x" := not_cutsReference_of_head hstart
  have hend : Decomposes "." "." [] := .literal (plain_cons_iff.2 ⟨nofun, plain_nil _⟩)
  have hlast : Decomposes "$y." [] [("y", ".")] := (decomposes_reference_iff rfl).2 ⟨rfl, _, _, rfl, hend⟩
  have hfirst : Decomposes "$x$y." [] [("x", []), ("y", ".")] := (decomposes_reference_iff rfl).2 ⟨rfl, _, _, rfl, hlast⟩
  have hsecond : Decomposes "$$x$y." "$" [("x", []), ("y", ".")] := (decomposes_cons_iff fun _ => rfl).2 ⟨_, rfl, hfirst⟩
  have hwhole : Decomposes "a$$x$y." "a$" [("x", []), ("y", ".")] :=
    (decomposes_cons_iff (by decide : 'a' = '$' → _)).2 ⟨_, rfl, hsecond⟩
  obtain ⟨first, others, -, hunique, -, hwritten⟩ := hdecomposed "a$$x$y."
  obtain ⟨rfl, rfl⟩ := hunique _ _ hwhole
  refine ⟨⟨hwhole, rfl, rfl, ?_⟩, ⟨rfl, rfl, rfl, ?_⟩, hcut, hjoined _ _ hcut⟩
  · let texts : Text → Text := fun name => if name = "x".toList then "$y#end" else "true"
    refine hwritten texts fun behind hbehind => ?_
    simp only [List.mem_cons, List.not_mem_nil, or_false] at hbehind
    rcases hbehind with rfl | rfl <;> rfl
  · exact hcopied "a$" "x" "$y" "$y#end" rfl (fun c hc => by cases hc; rfl) rfl

end Stencil
