/-
Which lines shape the conditional blocks.

A line does so exactly if it reads as one of six directives, and the keyword alone already
tells: the quick look that a suppressed line gets never misses such a directive.
-/
import Preprocessor.Directive.Basic
import Preprocessor.Proofs.Computation

namespace Preprocessor

namespace Directive

theorem contains_of_ofKeyword {keyword : String} {args whole : List Char} {d : Directive}
    (h : ofKeyword keyword args whole = .ok d) (hd : d.isConditional = true) :
    LineKind.conditionalKeywords.contains keyword = true := by
  by_contra hk
  simp only [LineKind.conditionalKeywords, List.contains_cons, List.contains_nil,
    Bool.or_eq_true, not_or] at hk
  obtain ⟨h1, h2, h3, h4, h5, h6, -⟩ := hk
  unfold ofKeyword at h
  rw [if_neg h1, if_neg h2, if_neg h3, if_neg h4, if_neg h5, if_neg h6] at h
  -- every keyword that is left gives a directive of another kind
  iterate 10
    rcases ite_eq_iff.mp h with ⟨-, h'⟩ | ⟨-, h⟩
    · obtain ⟨a, -, rfl⟩ := exists_of_map_eq_ok h'
      cases hd
  cases h
  cases hd

theorem contains_of_ofBody {body : List Char} {d : Directive} (h : ofBody body = .ok d)
    (hd : d.isConditional = true) :
    LineKind.conditionalKeywords.contains (splitKeyword body).1 = true := by
  unfold ofBody at h
  split at h
  · cases h; cases hd
  · split at h
    · cases h; cases hd
    · split at h
      · cases h; cases hd
      · simp only at h
        split at h
        · exact contains_of_ofKeyword h hd
        · cases h; cases hd

end Directive

namespace LineKind

theorem exists_body_of_classify {content : String} {d : Directive}
    (h : classify content = .ok (.directive d)) :
    ∃ body, directiveBody? content = some body ∧ Directive.ofBody body = .ok d := by
  unfold classify at h
  simp only at h
  cases hb : directiveBody? content with
  | some body =>
      simp only [hb] at h
      obtain ⟨d', hd', heq⟩ := exists_of_map_eq_ok h
      cases heq
      exact ⟨body, rfl, hd'⟩
  | none =>
      simp only [hb] at h
      repeat' split at h
      all_goals cases h

/-- The quick look at a suppressed line passes over no directive that shapes the blocks. -/
theorem isPlainDirective_of_conditional {content : String} {d : Directive}
    (h : classify content = .ok (.directive d)) (hd : d.isConditional = true) :
    isPlainDirective content = false := by
  obtain ⟨body, hbody, hof⟩ := exists_body_of_classify h
  unfold isPlainDirective
  rw [hbody]
  simp only [Directive.contains_of_ofBody hof hd, Bool.not_true]

end LineKind

end Preprocessor
