/-
The texts that lines emit.

A text that is emitted is made of the line and of the values that are put in for its markers.  The
values can be noted as they are found, which changes nothing about the text.  So a line emits a text
in which no line ends, if no value with an end in it is put in.
-/
import Preprocessor.Proofs.LineJoining
import Preprocessor.Proofs.LineOutcomes
import Preprocessor.Proofs.UnmarkedFiles

namespace Preprocessor

variable {σ : Type}

/-! ## Values that are put in for markers -/

namespace Inline

def noting (value : String → Hosted σ Fault String) (expr : String) :
    Hosted (σ × List String) Fault String :=
  ExceptT.mk fun (s, noted) =>
    match (value expr).run s with
    | (.ok v, s) => (.ok v, s, v :: noted)
    | (.error fault, s) => (.error fault, s, noted)

theorem unbroken_dropDefault {cs : List Char} (h : Text.unbroken cs = true) :
    Text.unbroken (dropDefault cs) = true := by
  unfold dropDefault
  cases hdefault : Text.cut defaultMark cs with
  | none => exact h
  | some parts =>
      have hrest : Text.unbroken parts.2 = true := by
        rw [Text.eq_of_cut hdefault, Text.unbroken_append] at h
        exact h.2
      dsimp only
      cases Text.cut openMark cs with
      | none => exact hrest
      | some before =>
          dsimp only
          split
          · exact hrest
          · exact h

/-- Noting the values changes nothing about a line with its markers replaced, which has no end
inside it if none of the values has. -/
theorem exists_noted {value : String → Hosted σ Fault String} {cs cs' : List Char} {s s' : σ}
    (h : (substituteChars value cs).run s = (.ok cs', s')) (noted : List String) :
    ∃ inserted, (substituteChars (noting value) cs).run (s, noted) =
        (.ok cs', s', inserted ++ noted) ∧
      (Text.unbroken cs = true → (∀ v ∈ inserted, Text.unbroken v.toList = true) →
        Text.unbroken cs' = true) := by
  fun_induction substituteChars value cs generalizing s cs' noted with
  | case1 cs hopen =>
      rw [substituteChars_of_unmarked hopen]
      cases h
      exact ⟨[], rfl, fun hcs _ => hcs⟩
  | case2 cs before rest hopen hclose => cases h
  | case3 cs before rest hopen expr after hclose ih =>
      rw [substituteChars_of_closed hopen hclose]
      rcases hvalue : (value (String.ofList (Text.trim expr))).run s with ⟨fault | v, s₁⟩
      · rw [run_bind_of_error hvalue] at h
        cases h
      · rw [run_bind_of_ok hvalue] at h
        have hnoted : (noting value (String.ofList (Text.trim expr))).run (s, noted) =
            (.ok v, s₁, v :: noted) := by
          rw [noting, ExceptT.run_mk]
          dsimp only
          rw [hvalue]
        rcases hmore : (substituteChars value (dropDefault after)).run s₁ with ⟨fault | more, s₂⟩
        · rw [run_bind_of_error hmore] at h
          cases h
        · rw [run_bind_of_ok hmore] at h
          cases h
          obtain ⟨inserted, hrun, hunbroken⟩ := ih hmore (v :: noted)
          refine ⟨inserted ++ [v], ?_, fun hcs hvalues => ?_⟩
          · rw [run_bind_of_ok hnoted, run_bind_of_ok hrun, List.append_assoc inserted]
            rfl
          · rw [Text.eq_of_cut hopen, Text.unbroken_append, Text.unbroken_append] at hcs
            obtain ⟨⟨hbefore, -⟩, hrest⟩ := hcs
            rw [Text.eq_of_cut hclose, Text.unbroken_append] at hrest
            have hv := hvalues v (List.mem_append_right _ List.mem_cons_self)
            have hmore := hunbroken (unbroken_dropDefault hrest.2) fun w hw =>
              hvalues w (List.mem_append_left _ hw)
            rw [Text.unbroken_append, Text.unbroken_append]
            exact ⟨⟨hbefore, hv⟩, hmore⟩

end Inline

namespace EngineM

variable (host : Host σ) (site : Site)

/-- The values that are put in for the markers of a text, the last first. -/
def inserted (s : String) (e : Engine σ) : List String :=
  let value := fun expr => Value.text <$> (evaluate host e.env site expr).withError Fault.eval
  ((Inline.substituteChars (Inline.noting value) s.toList).run (e.host, [])).2.2

variable {host site}

theorem unbroken_of_substituted {s text : String} {e e' : Engine σ}
    (h : (substituted host site s).run e = (.ok text, e')) (hs : Text.unbroken s.toList = true)
    (hinserted : ∀ v ∈ inserted host site s e, Text.unbroken v.toList = true) :
    Text.unbroken text.toList = true := by
  let value := fun expr => Value.text <$> (evaluate host e.env site expr).withError Fault.eval
  have hresult : ((Inline.substitute value s).run e.host).1 = .ok text := congrArg Prod.fst h
  rcases hrun : (Inline.substituteChars value s.toList).run e.host with ⟨fault | cs, s'⟩
  · have hfault : (Inline.substitute value s).run e.host = (.error fault, s') :=
      run_bind_of_error hrun
    rw [hfault] at hresult
    cases hresult
  · have htext : (Inline.substitute value s).run e.host = (.ok (String.ofList cs), s') :=
      run_bind_of_ok hrun
    rw [htext] at hresult
    cases hresult
    obtain ⟨noted, hnoted, hunbroken⟩ := Inline.exists_noted hrun []
    have heq : inserted host site s e = noted := by
      rw [inserted, hnoted, List.append_nil]
    rw [String.toList_ofList]
    exact hunbroken hs (heq ▸ hinserted)

end EngineM

/-! ## Emitted lines -/

/-- The part of a line in which markers are replaced. -/
def LineKind.substitutedPart (content : String) : Option String :=
  match LineKind.classify content with
  | .ok .text => some content
  | .ok (.toggle _ body false) => some body
  | _ => none

theorem Text.unbroken_of_subset {cs ds : List Char} (h : cs ⊆ ds) (hds : unbroken ds = true) :
    unbroken cs = true :=
  List.all_eq_true.mpr fun c hc => List.all_eq_true.mp hds c (h hc)

theorem LineKind.unbroken_of_toggle {content indent body : String} {raw : Bool}
    (h : LineKind.classify content = .ok (.toggle indent body raw))
    (hcontent : Text.unbroken content.toList = true) :
    Text.unbroken indent.toList = true ∧ Text.unbroken body.toList = true := by
  have hindent : Text.unbroken (Text.indentation content).toList = true := by
    rw [Text.indentation, String.toList_ofList]
    exact Text.unbroken_of_subset (List.takeWhile_subset _) hcontent
  have hafter {mark body : List Char}
      (hbody : Text.after? mark (content.toList.dropWhile Text.isBlank) = some body) :
      Text.unbroken (String.ofList body).toList = true := by
    have hrest := Text.unbroken_of_subset (List.dropWhile_subset Text.isBlank) hcontent
    rw [Text.eq_of_after? hbody, Text.unbroken_append] at hrest
    rw [String.toList_ofList]
    exact hrest.2
  unfold classify at h
  dsimp only at h
  split at h
  · obtain ⟨d, -, hd⟩ := exists_of_map_eq_ok h
    cases hd
  · split at h
    · rename_i hraw
      cases h
      exact ⟨hindent, hafter hraw⟩
    · split at h
      · rename_i hmarked
        cases h
        exact ⟨hindent, hafter hmarked⟩
      · cases h

section

variable {host : Host σ} {site : Site} {content text : String} {s : Scope} {e : Engine σ}
  {p : Scope × Engine σ}

theorem unbroken_of_run_emit {body : String}
    (h : (LineM.emit body).run (s, e) = (.ok (.emit text), p))
    (hbody : Text.unbroken body.toList = true) : Text.unbroken text.toList = true := by
  cases h
  dsimp only
  split
  · rw [String.toList_append, Text.unbroken_append]
    exact ⟨rfl, hbody⟩
  · exact hbody

/-- A line that is emitted has no end inside it, if none of the values put in for its markers
has. -/
theorem unbroken_of_emit (h : e.processLine host site content s = (.ok (.emit text), p))
    (hcontent : Text.unbroken content.toList = true)
    (hinserted : ∀ part, LineKind.substitutedPart content = some part →
      ∀ v ∈ EngineM.inserted host site part e, Text.unbroken v.toList = true) :
    Text.unbroken text.toList = true := by
  have hemitted {part : String} {f : String → String}
      (hpart : LineKind.substitutedPart content = some part)
      (hunbroken : Text.unbroken part.toList = true)
      (hf : ∀ body, Text.unbroken body.toList = true → Text.unbroken (f body).toList = true)
      (hrun : ((EngineM.substituted host site part).toLine >>=
        fun body => LineM.emit (f body)).run (s, e) = (.ok (.emit text), p)) :
      Text.unbroken text.toList = true := by
    rcases hbody : (EngineM.substituted host site part).run e with ⟨fault | body, e₁⟩
    · rw [run_bind_of_error (run_toLine hbody s)] at hrun
      cases hrun
    · rw [run_bind_of_ok (run_toLine hbody s)] at hrun
      have hsubstituted := EngineM.unbroken_of_substituted hbody hunbroken (hinserted part hpart)
      exact unbroken_of_run_emit hrun (hf body hsubstituted)
  rw [processLine_eq] at h
  split at h
  · cases h
  · cases hkind : LineKind.classify content with
    | error fault =>
        rw [hkind] at h
        cases h
    | ok kind =>
        rw [hkind] at h
        cases kind with
        | directive d =>
            dsimp only at h
            split at h
            · cases (ensures_conditional host site d).value h
            · split at h
              · have hsilent : Ensures Fault.isOfEffect (fun step => ∀ text, step ≠ .emit text)
                    (LineM.plain host site d) :=
                  ensures_plain_of host site (fun _ => Step.noConfusion)
                    (fun _ _ _ => Step.noConfusion) fun _ _ _ _ => Step.noConfusion
                exact absurd rfl (hsilent.value h text)
              · cases h
        | text =>
            dsimp only at h
            split at h
            · refine hemitted (f := id) ?_ hcontent (fun _ hbody => hbody) h
              rw [LineKind.substitutedPart, hkind]
            · cases h
        | toggle indent body raw =>
            obtain ⟨hindent, hbody⟩ := LineKind.unbroken_of_toggle hkind hcontent
            have happend (body : String) (hbody : Text.unbroken body.toList = true) :
                Text.unbroken (indent ++ body).toList = true := by
              rw [String.toList_append, Text.unbroken_append]
              exact ⟨hindent, hbody⟩
            dsimp only at h
            split at h
            · cases raw with
              | true => exact unbroken_of_run_emit h (happend body hbody)
              | false =>
                  refine hemitted ?_ hbody happend h
                  rw [LineKind.substitutedPart, hkind]
            · cases h

end

end Preprocessor
