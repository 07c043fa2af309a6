/-
Where a mark first occurs in a text.

A text is cut at the leftmost occurrence of a mark, and is left whole exactly if the mark does not
occur in it.  So later proofs speak of occurrences and never follow the search.
-/
import Preprocessor.Text.Basic
import Mathlib.Tactic.Common

namespace Preprocessor.Text

variable {head mark cs before rest : List Char}

/-! ## What a text starts with -/

theorem eq_of_after? (h : after? head cs = some rest) : cs = head ++ rest := by
  induction head generalizing cs with
  | nil =>
      cases h
      rfl
  | cons a head ih =>
      cases cs with
      | nil => cases h
      | cons c cs =>
          rw [after?] at h
          split at h
          · rename_i heq
            rw [← beq_iff_eq.mp heq, ih h, List.cons_append]
          · cases h

theorem after?_append (head rest : List Char) : after? head (head ++ rest) = some rest := by
  induction head with
  | nil => rfl
  | cons a head ih => simp [after?, ih]

/-! ## The leftmost occurrence -/

/-- `CutAt mark cs before rest`: the leftmost occurrence of a mark in `cs` stands between `before`
and `rest`. -/
structure CutAt (mark cs before rest : List Char) : Prop where
  whole : cs = before ++ mark ++ rest
  leftmost : ∀ earlier later, cs = earlier ++ mark ++ later → before.length ≤ earlier.length

theorem CutAt.unique {before' rest' : List Char} (h : CutAt mark cs before rest)
    (h' : CutAt mark cs before' rest') : before = before' ∧ rest = rest' := by
  have hlength : before.length = before'.length :=
    Nat.le_antisymm (h.leftmost _ _ h'.whole) (h'.leftmost _ _ h.whole)
  have hwhole : before ++ (mark ++ rest) = before' ++ (mark ++ rest') := by
    rw [← List.append_assoc, ← List.append_assoc, ← h.whole, h'.whole]
  obtain ⟨hbefore, htail⟩ := List.append_inj hwhole hlength
  exact ⟨hbefore, List.append_cancel_left htail⟩

theorem eq_of_cut (h : cut mark cs = some (before, rest)) : cs = before ++ mark ++ rest := by
  induction cs generalizing before with
  | nil =>
      rw [cut] at h
      split at h
      · rename_i hempty
        cases h
        rw [List.isEmpty_iff.mp hempty]
        rfl
      · cases h
  | cons c cs ih =>
      rw [cut] at h
      split at h
      · rename_i hafter
        cases h
        exact eq_of_after? hafter
      · obtain ⟨⟨before', rest'⟩, hcut, heq⟩ := Option.map_eq_some_iff.mp h
        cases heq
        rw [ih hcut]
        rfl

theorem exists_cut (mark earlier later : List Char) :
    ∃ before rest, cut mark (earlier ++ mark ++ later) = some (before, rest) ∧
      before.length ≤ earlier.length := by
  induction earlier with
  | nil =>
      rw [List.nil_append]
      cases hcs : mark ++ later with
      | nil =>
          obtain ⟨rfl, rfl⟩ := List.append_eq_nil_iff.mp hcs
          exact ⟨[], [], rfl, Nat.le_refl _⟩
      | cons c cs =>
          have hafter : after? mark (c :: cs) = some later := hcs ▸ after?_append mark later
          exact ⟨[], later, by rw [cut, hafter], Nat.le_refl _⟩
  | cons c earlier ih =>
      obtain ⟨before, rest, hcut, hle⟩ := ih
      rw [List.cons_append, List.cons_append, cut]
      cases after? mark (c :: (earlier ++ mark ++ later)) with
      | some rest' => exact ⟨[], rest', rfl, Nat.zero_le _⟩
      | none =>
          refine ⟨c :: before, rest, ?_, Nat.succ_le_succ hle⟩
          show (cut mark (earlier ++ mark ++ later)).map _ = _
          rw [hcut]
          rfl

theorem cut_eq_some_iff : cut mark cs = some (before, rest) ↔ CutAt mark cs before rest := by
  constructor
  · intro h
    refine ⟨eq_of_cut h, ?_⟩
    rintro earlier later rfl
    obtain ⟨before', rest', hcut, hle⟩ := exists_cut mark earlier later
    cases h.symm.trans hcut
    exact hle
  · intro h
    obtain ⟨before', rest', hcut, hle⟩ := exists_cut mark before rest
    rw [← h.whole] at hcut
    have hfound : CutAt mark cs before' rest' :=
      ⟨eq_of_cut hcut, fun earlier later hcs => Nat.le_trans hle (h.leftmost earlier later hcs)⟩
    obtain ⟨rfl, rfl⟩ := h.unique hfound
    exact hcut

theorem cut_eq_none_iff : cut mark cs = none ↔ ¬ mark <:+: cs := by
  constructor
  · rintro h ⟨earlier, later, rfl⟩
    obtain ⟨before, rest, hcut, -⟩ := exists_cut mark earlier later
    cases h.symm.trans hcut
  · intro h
    cases hcut : cut mark cs with
    | none => rfl
    | some parts => exact absurd ⟨parts.1, parts.2, (eq_of_cut hcut).symm⟩ h

end Preprocessor.Text
