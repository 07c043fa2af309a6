/-
The quick look at suppressed lines.

In a suppressed region a line that is marked as a directive is passed over if its keyword shapes no
block, without being read.  The look at the keyword and the reading of the line agree on which lines
shape the blocks.  Following every line in full would make a difference in one case only: a
directive of another kind that cannot be read would be an error instead of being passed over.
-/
import Preprocessor.Proofs.DirectiveForms
import Preprocessor.Proofs.Suppression

namespace Preprocessor

/-! ## The keyword of a line -/

namespace LineKind

variable {content keyword : String}

/-- `Keyworded content keyword`: after blanks and the mark of a directive, a line goes on with a
keyword, which ends where no further letter of a keyword follows. -/
def Keyworded (content keyword : String) : Prop :=
  ∃ indent rest : List Char,
    content.toList = indent ++ ['/', '/', '#'] ++ (keyword.toList ++ rest) ∧
    (∀ c ∈ indent, Text.isBlank c = true) ∧
    (∀ c ∈ keyword.toList, Directive.isKeywordChar c = true) ∧
    ∀ c ∈ rest.head?, Directive.isKeywordChar c = false

theorem directiveBody?_eq_some_iff {body : List Char} :
    directiveBody? content = some body ↔
      ∃ indent, content.toList = indent ++ ['/', '/', '#'] ++ body ∧
        ∀ c ∈ indent, Text.isBlank c = true := by
  constructor
  · intro h
    refine ⟨content.toList.takeWhile Text.isBlank, ?_, fun c hc => List.mem_takeWhile_imp hc⟩
    rw [List.append_assoc, ← Text.eq_of_after? h, List.takeWhile_append_dropWhile]
  · rintro ⟨indent, hchars, hindent⟩
    rw [directiveBody?, hchars, List.append_assoc, Text.dropWhile_of_head? hindent]
    · exact Text.after?_append _ body
    · rintro c ⟨⟩
      decide

theorem keyworded_iff :
    Keyworded content keyword ↔
      ∃ body, directiveBody? content = some body ∧ (Directive.splitKeyword body).1 = keyword := by
  constructor
  · rintro ⟨indent, rest, hchars, hindent, hkeyword, hrest⟩
    refine ⟨keyword.toList ++ rest, directiveBody?_eq_some_iff.mpr ⟨indent, hchars, hindent⟩, ?_⟩
    rw [Directive.splitKeyword_append hkeyword hrest, String.ofList_toList]
  · rintro ⟨body, hbody, rfl⟩
    obtain ⟨indent, hchars, hindent⟩ := directiveBody?_eq_some_iff.mp hbody
    refine ⟨indent, (Directive.splitKeyword body).2, ?_, hindent, ?_,
      Text.of_mem_head?_dropWhile body⟩
    · rw [hchars, Directive.splitKeyword, String.toList_ofList, List.takeWhile_append_dropWhile]
    · rw [Directive.splitKeyword, String.toList_ofList]
      exact fun c hc => List.mem_takeWhile_imp hc

theorem Keyworded.unique {keyword' : String} (h : Keyworded content keyword)
    (h' : Keyworded content keyword') : keyword = keyword' := by
  obtain ⟨body, hbody, rfl⟩ := keyworded_iff.mp h
  obtain ⟨body', hbody', rfl⟩ := keyworded_iff.mp h'
  rw [Option.some.inj (hbody.symm.trans hbody')]

theorem isPlainDirective_iff :
    isPlainDirective content = true ↔
      ∃ keyword, Keyworded content keyword ∧ keyword ∉ conditionalKeywords := by
  unfold isPlainDirective
  constructor
  · intro h
    cases hbody : directiveBody? content with
    | none =>
        rw [hbody] at h
        cases h
    | some body =>
        rw [hbody] at h
        exact ⟨_, keyworded_iff.mpr ⟨body, hbody, rfl⟩, by simpa using h⟩
  · rintro ⟨keyword, hkeyword, hplain⟩
    obtain ⟨body, hbody, rfl⟩ := keyworded_iff.mp hkeyword
    rw [hbody]
    simpa using hplain

theorem classify_of_directiveBody? {body : List Char} (h : directiveBody? content = some body) :
    classify content = (Directive.ofBody body).map .directive := by
  unfold classify
  dsimp only
  rw [h]

theorem classify_of_keyworded (h : Keyworded content keyword) :
    (∃ fault, classify content = .error fault) ∨
      ∃ d, classify content = .ok (.directive d) := by
  obtain ⟨body, hbody, -⟩ := keyworded_iff.mp h
  rw [classify_of_directiveBody? hbody]
  cases Directive.ofBody body with
  | error fault => exact .inl ⟨fault, rfl⟩
  | ok d => exact .inr ⟨d, rfl⟩

theorem exists_keyworded_of_error {fault : Fault} (h : classify content = .error fault) :
    ∃ keyword, Keyworded content keyword := by
  cases hbody : directiveBody? content with
  | some body => exact ⟨_, keyworded_iff.mpr ⟨body, hbody, rfl⟩⟩
  | none =>
      unfold classify at h
      simp only [hbody] at h
      repeat' split at h
      all_goals cases h

theorem classify_of_isPlainDirective (h : isPlainDirective content = true) :
    (∃ fault, classify content = .error fault) ∨
      ∃ d, classify content = .ok (.directive d) ∧ d.isConditional = false := by
  obtain ⟨keyword, hkeyword, -⟩ := isPlainDirective_iff.mp h
  rcases classify_of_keyworded hkeyword with herror | ⟨d, hkind⟩
  · exact .inl herror
  · refine .inr ⟨d, hkind, Bool.eq_false_iff.mpr fun hd => ?_⟩
    cases h.symm.trans (isPlainDirective_of_conditional hkind hd)

theorem exists_conditional_of_error {fault : Fault} (hplain : isPlainDirective content = false)
    (h : classify content = .error fault) :
    ∃ keyword ∈ conditionalKeywords, ∀ k, Keyworded content k ↔ k = keyword := by
  obtain ⟨keyword, hkeyword⟩ := exists_keyworded_of_error h
  refine ⟨keyword, ?_, fun k => ⟨fun hk => hk.unique hkeyword, fun hk => hk ▸ hkeyword⟩⟩
  by_contra hother
  cases hplain.symm.trans (isPlainDirective_iff.mpr ⟨keyword, hkeyword, hother⟩)

/-- A directive that shapes no block and cannot be read. -/
def Malformed (content : String) (fault : Fault) : Prop :=
  classify content = .error fault ∧
    ∃ keyword, Keyworded content keyword ∧ keyword ∉ conditionalKeywords

end LineKind

/-! ## Lines followed in full -/

section

variable {σ : Type} (host : Host σ) (site : Site)

/-- What a line does, and the scope and the engine after it, if the line is followed in full. -/
def Engine.processLineInFull (content : String) (scope : Scope) (e : Engine σ) :
    Except Fault Step × Scope × Engine σ :=
  (LineM.lineInFull host site content).run (scope, e)

/-- A line is followed in full unless the quick look passes over it. -/
theorem processLine_eq_inFull (content : String) (s : Scope) (e : Engine σ) :
    e.processLine host site content s =
      if !s.conditions.isActive && LineKind.isPlainDirective content then (.ok .skip, s, e)
      else e.processLineInFull host site content s := by
  have hscope : (LineM.scope : LineM σ Scope).run (s, e) = (.ok s, (s, e)) := rfl
  unfold Engine.processLine Engine.processLineInFull LineM.line
  rw [run_bind_of_ok hscope]
  split
  · rfl
  · rfl

variable {content : String} {s : Scope} {e : Engine σ}

theorem processLineInFull_of_error {fault : Fault} (h : LineKind.classify content = .error fault) :
    e.processLineInFull host site content s = (.error fault, s, e) := by
  unfold Engine.processLineInFull LineM.lineInFull
  rw [h]
  rfl

theorem processLineInFull_of_suppressed {d : Directive}
    (h : LineKind.classify content = .ok (.directive d)) (hd : d.isConditional = false)
    (hs : s.conditions.isActive = false) :
    e.processLineInFull host site content s = (.ok .skip, s, e) := by
  have hscope : (LineM.scope : LineM σ Scope).run (s, e) = (.ok s, (s, e)) := rfl
  unfold Engine.processLineInFull LineM.lineInFull
  rw [run_bind_of_ok hscope, h]
  simp only [hd, hs]
  rfl

end

open LineKind

/-- The quick look agrees with reading the line in full.  A line that it passes over cannot be read
or is a directive that shapes no block; a directive that shapes the blocks is never passed over; and
if a line that is not passed over cannot be read, then its keyword is one of the six that shape the
blocks.  So in a suppressed region, with or without the quick look, a line does the same, unless it
is a directive of another kind that cannot be read: with the quick look it does nothing, and without
it there is an error. -/
theorem quickLook_agrees (content : String) :
    (isPlainDirective content = true →
      (∃ fault, classify content = .error fault) ∨
        ∃ d, classify content = .ok (.directive d) ∧ d.isConditional = false) ∧
    (∀ d, classify content = .ok (.directive d) → d.isConditional = true →
      isPlainDirective content = false) ∧
    (∀ fault, isPlainDirective content = false → classify content = .error fault →
      ∃ keyword ∈ conditionalKeywords, ∀ k, Keyworded content k ↔ k = keyword) ∧
    ∀ {σ : Type} (host : Host σ) (site : Site) (s : Scope) (e : Engine σ),
      s.conditions.state ≠ .active →
      (∀ fault, Malformed content fault →
        e.processLine host site content s = (.ok .skip, s, e) ∧
          e.processLineInFull host site content s = (.error fault, s, e)) ∧
      ((∀ fault, ¬ Malformed content fault) →
        e.processLine host site content s = e.processLineInFull host site content s) := by
  refine ⟨classify_of_isPlainDirective, fun d => isPlainDirective_of_conditional,
    fun fault => exists_conditional_of_error, fun host site s e hstate => ?_⟩
  have hs : s.conditions.isActive = false := Conditions.isActive_of_state_ne hstate
  rw [processLine_eq_inFull, hs, Bool.not_false, Bool.true_and]
  constructor
  · rintro fault ⟨herror, hother⟩
    rw [if_pos (isPlainDirective_iff.mpr hother)]
    exact ⟨rfl, processLineInFull_of_error host site herror⟩
  · intro hread
    split
    · rename_i hplain
      -- what is passed over can be read here, and is then followed to no effect
      rcases classify_of_isPlainDirective hplain with ⟨fault, herror⟩ | ⟨d, hkind, hd⟩
      · exact absurd ⟨herror, isPlainDirective_iff.mp hplain⟩ (hread fault)
      · exact (processLineInFull_of_suppressed host site hkind hd hs).symm
    · rfl

/-- In a suppressed region a definition without a name is passed over, where following it in full
would be an error; the end of a block with an argument is an error in any case; and a text that only
looks like a condition is no directive that shapes the blocks. -/
theorem quickLook_agrees_suppressed :
    let s : Scope := { conditions := { blocks := [⟨false, false, true, false, 0⟩] } }
    let e : Engine Unit := { env := ⟨[], false⟩, host := () }
    let site : Site := ⟨⟨"main"⟩, 1⟩
    let host := Host.declining Unit
    s.conditions.state ≠ .active ∧
      (∃ fault, LineKind.Malformed " \t//#define 1X" fault ∧
        e.processLine host site " \t//#define 1X" s = (.ok .skip, s, e) ∧
        e.processLineInFull host site " \t//#define 1X" s = (.error fault, s, e)) ∧
      (∃ keyword ∈ LineKind.conditionalKeywords,
        ∀ k, LineKind.Keyworded "//#endif junk" k ↔ k = keyword) ∧
      e.processLine host site "//#if(x)" s = e.processLineInFull host site "//#if(x)" s := by
  intro s e site host
  have hstate : s.conditions.state ≠ .active := by decide
  obtain ⟨fault, hdefine⟩ : ∃ fault, LineKind.classify " \t//#define 1X" = .error fault :=
    exists_error_of_toOption (by decide +kernel)
  obtain ⟨fault', hendif⟩ : ∃ fault, LineKind.classify "//#endif junk" = .error fault :=
    exists_error_of_toOption (by decide +kernel)
  have hother : LineKind.classify "//#if(x)" = .ok (.directive (.unknown "if(x)")) :=
    eq_ok_of_toOption (by decide +kernel)
  have hmalformed : LineKind.Malformed " \t//#define 1X" fault :=
    ⟨hdefine, LineKind.isPlainDirective_iff.mp (by decide +kernel)⟩
  have hread : ∀ fault, ¬ LineKind.Malformed "//#if(x)" fault := by
    rintro fault ⟨herror, -⟩
    cases hother.symm.trans herror
  obtain ⟨-, -, -, hskip⟩ := quickLook_agrees " \t//#define 1X"
  obtain ⟨-, -, hkeyword, -⟩ := quickLook_agrees "//#endif junk"
  obtain ⟨-, -, -, hsame⟩ := quickLook_agrees "//#if(x)"
  exact ⟨hstate, ⟨fault, hmalformed, (hskip host site s e hstate).1 fault hmalformed⟩,
    hkeyword fault' (by decide +kernel) hendif, (hsame host site s e hstate).2 hread⟩

end Preprocessor
