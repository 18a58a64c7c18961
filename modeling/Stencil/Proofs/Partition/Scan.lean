import Stencil.Proofs.Except
import Stencil.Proofs.Partition.Directive

/-!
# Scanning partitions the template

The scanner moves from one offset to the next and never looks back, so what it gives is read off the partitions from the offset
at which it stands (`scan_eq_ok_iff`): the token that starts there is the only one that fits (`fits_iff_start`), and what is
left is scanned from where it stops. So the tokens of a template are its only partition.
-/

namespace Stencil.Token

/-- One step of the scan. -/
theorem scan_cons_eq_ok_iff {o : Nat} {c : Char} {rest : Text} {tokens : List Token} :
    scan o (c :: rest) = .ok tokens ↔ ∃ form n after, start c rest = .ok (form, n) ∧
      scan (o + 1 + n) (rest.drop n) = .ok after ∧ tokens = ⟨o, form⟩ :: after := by
  rw [scan]
  constructor
  · intro h
    split at h
    · cases h
    · rename_i form n hs
      obtain ⟨after, ha, h⟩ := bind_ok_iff.1 h
      exact ⟨form, n, after, hs, ha, (Except.ok.inj h).symm⟩
  · rintro ⟨form, n, after, hs, ha, rfl⟩
    simp only [hs, ha]
    rfl

/-- Whether a token fits, told from the template after its offset: a character, what belongs to it and what comes next. -/
theorem fits_iff_source {template : Text} {o : Nat} {c : Char} {used next : Text} {form : Form}
    (ht : template.drop o = c :: (used ++ next)) :
    Fits template ⟨o, form⟩ (o + 1 + used.length) ↔
      form.Source (c :: used) ∧ form.Canonical (c :: (used ++ next)) next := by
  have hpiece : template.extract o (o + 1 + used.length) = c :: used := by
    rw [List.extract_eq_take_drop, ht, show o + 1 + used.length - o = used.length + 1 by omega, List.take_succ_cons,
      List.take_left]
  have hnext : template.drop (o + 1 + used.length) = next := by
    rw [Nat.add_assoc, ← List.drop_drop, ht, Nat.add_comm, List.drop_succ_cons, List.drop_left]
  unfold Fits
  simp only
  rw [hpiece, ht, hnext]

/-- The only token that fits at an offset is the one that starts there. -/
theorem fits_iff_start {template : Text} {o stop : Nat} {c : Char} {rest : Text} {form : Form}
    (ht : template.drop o = c :: rest) (hstop : stop ≤ template.length) :
    Fits template ⟨o, form⟩ stop ↔ ∃ n, start c rest = .ok (form, n) ∧ stop = o + 1 + n := by
  have hlen := congrArg List.length ht
  rw [List.length_drop, List.length_cons] at hlen
  constructor
  · intro hfits
    have hlt : o < stop := hfits.lt.1
    obtain ⟨used, next, rfl, rfl⟩ : ∃ used next : Text, rest = used ++ next ∧ stop = o + 1 + used.length := by
      refine ⟨rest.take (stop - (o + 1)), rest.drop (stop - (o + 1)), (List.take_append_drop _ _).symm, ?_⟩
      rw [List.length_take]
      omega
    obtain ⟨hs, hc⟩ := (fits_iff_source ht).1 hfits
    exact ⟨used.length, start_of_source hs hc, rfl⟩
  · rintro ⟨n, hstart, rfl⟩
    obtain ⟨used, next, rfl, rfl, hs, hc⟩ := source_of_start hstart
    exact (fits_iff_source ht).2 ⟨hs, hc⟩

/-- The scan from an offset gives tokens exactly if they partition the rest of the template. By induction on how much of the
template is left. -/
theorem scan_eq_ok_iff {template : Text} {o : Nat} {tokens : List Token} (ho : o ≤ template.length) :
    scan o (template.drop o) = .ok tokens ↔ Partition template o tokens := by
  induction hn : template.length - o using Nat.strongRecOn generalizing o tokens with
  | _ n ih =>
  cases ht : template.drop o with
  | nil =>
    obtain rfl : o = template.length := Nat.le_antisymm ho (List.drop_eq_nil_iff.1 ht)
    rw [partition_length_iff, scan]
    exact ⟨fun h => (Except.ok.inj h).symm, fun h => h ▸ rfl⟩
  | cons c rest =>
    have hlen := congrArg List.length ht
    rw [List.length_drop, List.length_cons] at hlen
    have hdrop : ∀ k, rest.drop k = template.drop (o + 1 + k) := by
      intro k
      rw [Nat.add_assoc, ← List.drop_drop, ht, Nat.add_comm, List.drop_succ_cons]
    rw [scan_cons_eq_ok_iff]
    constructor
    · rintro ⟨form, k, after, hstart, hscan, rfl⟩
      have hk : k ≤ rest.length := by
        obtain ⟨used, next, rfl, rfl, -⟩ := source_of_start hstart
        rw [List.length_append]
        omega
      have hstop : o + 1 + k ≤ template.length := by omega
      rw [hdrop] at hscan
      exact .cons ((fits_iff_start ht hstop).2 ⟨k, hstart, rfl⟩) ((ih _ (by omega) hstop rfl).1 hscan)
    · intro hp
      cases tokens with
      | nil =>
        have hend : template.length = o := hp.starts
        omega
      | cons token after =>
        obtain ⟨rfl, stop, hfits, hrest⟩ := partition_cons_iff.1 hp
        obtain ⟨k, hstart, rfl⟩ := (fits_iff_start ht hrest.le).1 hfits
        refine ⟨token.form, k, after, hstart, ?_, rfl⟩
        rw [hdrop]
        exact (ih _ (by omega) hrest.le rfl).2 hrest

/-- Splitting a template into tokens gives its partitions. -/
theorem tokenize_eq_ok_iff {template : Text} {tokens : List Token} :
    tokenize template = .ok tokens ↔ Partition template 0 tokens :=
  scan_eq_ok_iff (Nat.zero_le _)

/-- Splitting a template gives tokens exactly if they are its one partition: they start at the start of the template, increase,
stand for all that is written between their offsets, and none could be read in another way; and no other tokens do so. -/
theorem tokenize_eq_ok_iff_only_partition (template : Text) (tokens : List Token) :
    tokenize template = .ok tokens ↔
      Partition template 0 tokens ∧ ∀ other : List Token, Partition template 0 other → other = tokens := by
  constructor
  · intro h
    refine ⟨tokenize_eq_ok_iff.1 h, fun other ho => ?_⟩
    exact Except.ok.inj ((tokenize_eq_ok_iff.2 ho).symm.trans h)
  · rintro ⟨h, -⟩
    exact tokenize_eq_ok_iff.2 h

end Stencil.Token
