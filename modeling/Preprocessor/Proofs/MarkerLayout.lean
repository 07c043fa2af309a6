/-
A line with markers, read from left to right.

How a line falls into texts and markers depends on the line alone: the first `/*$` begins a marker,
the first `$*/` behind it ends it, and the text behind that is read on from the end of its default,
if it begins with one.  The replacement of markers goes through this layout: it asks for the value
of one expression after the other and stops at the first that has none.  So what is put in is never
read for markers, and no expression is asked for twice or out of order.

The layout is a relation between a line and a list of texts and markers.  It says by itself what
first means at every point, so that a line has one layout and the replacement cannot have followed
another.
-/
import Preprocessor.Proofs.Computation
import Preprocessor.Proofs.LineSteps
import Preprocessor.Proofs.TextCutting

namespace Preprocessor.Inline

open Text (CutAt)

/-! ## The layout of a line -/

/-- How a line falls into texts and markers: it goes on without a marker, its first marker has no
end, or a text and a marker with an expression come before the rest. -/
inductive Layout where
  | text (cs : List Char)
  | unclosed (before : List Char)
  | marker (before : List Char) (expr : String) (rest : Layout)

/-- `Resumes after cs`: a line that has a marker before `after` is read on from `cs`.  A default is
a text up to a `/*-*/` in front of which no marker begins. -/
inductive Resumes (after : List Char) : List Char → Prop
  | behindDefault {skipped rest : List Char} :
      CutAt defaultMark after skipped rest →
      (∀ before later, after = before ++ openMark ++ later → skipped.length < before.length) →
      Resumes after rest
  | atOnce :
      (∀ skipped rest, after = skipped ++ defaultMark ++ rest →
        ∃ before later, after = before ++ openMark ++ later ∧ before.length < skipped.length) →
      Resumes after after

/-- `LaidOut cs layout`: a line has a layout. -/
inductive LaidOut : List Char → Layout → Prop
  | text {cs : List Char} : ¬ openMark <:+: cs → LaidOut cs (.text cs)
  | unclosed {cs before rest : List Char} :
      CutAt openMark cs before rest → ¬ closeMark <:+: rest → LaidOut cs (.unclosed before)
  | marker {cs before rest inner after next : List Char} {layout : Layout} :
      CutAt openMark cs before rest → CutAt closeMark rest inner after → Resumes after next →
      LaidOut next layout →
      LaidOut cs (.marker before (String.ofList (Text.trim inner)) layout)

/-- A default and a marker do not begin at one place. -/
theorem length_ne_of_marks {cs skipped rest before later : List Char}
    (hdefault : cs = skipped ++ defaultMark ++ rest) (hopen : cs = before ++ openMark ++ later) :
    before.length ≠ skipped.length := by
  intro hlength
  have hwhole : before ++ (openMark ++ later) = skipped ++ (defaultMark ++ rest) := by
    rw [← List.append_assoc, ← List.append_assoc, ← hopen, hdefault]
  obtain ⟨-, htail⟩ := List.append_inj hwhole hlength
  simp [defaultMark, openMark] at htail

theorem resumes_dropDefault (after : List Char) : Resumes after (dropDefault after) := by
  simp only [dropDefault]
  cases hdefault : Text.cut defaultMark after with
  | none =>
      have hnone := Text.cut_eq_none_iff.mp hdefault
      exact .atOnce fun skipped rest hafter => absurd ⟨skipped, rest, hafter.symm⟩ hnone
  | some parts =>
      have hskipped := Text.cut_eq_some_iff.mp hdefault
      dsimp only
      cases hopen : Text.cut openMark after with
      | none =>
          have hnone := Text.cut_eq_none_iff.mp hopen
          exact .behindDefault hskipped fun before later hafter =>
            absurd ⟨before, later, hafter.symm⟩ hnone
      | some around =>
          have hbefore := Text.cut_eq_some_iff.mp hopen
          dsimp only
          split
          · rename_i hlt
            exact .behindDefault hskipped fun before later hafter =>
              Nat.lt_of_lt_of_le hlt (hbefore.leftmost before later hafter)
          · rename_i hlt
            -- the first marker begins in front of the first end of a default, so of every one
            refine .atOnce fun skipped rest hafter => ⟨_, _, hbefore.whole, ?_⟩
            have hle := hskipped.leftmost skipped rest hafter
            have hne := length_ne_of_marks hskipped.whole hbefore.whole
            omega

theorem Resumes.unique {after cs cs' : List Char} (h : Resumes after cs)
    (h' : Resumes after cs') : cs = cs' := by
  have apart {skipped rest : List Char} (hcut : CutAt defaultMark after skipped rest)
      (hfirst : ∀ before later, after = before ++ openMark ++ later →
        skipped.length < before.length)
      (hlater : ∀ skipped rest, after = skipped ++ defaultMark ++ rest →
        ∃ before later, after = before ++ openMark ++ later ∧ before.length < skipped.length) :
      False := by
    obtain ⟨before, later, hafter, hlt⟩ := hlater skipped rest hcut.whole
    exact absurd hlt (Nat.lt_asymm (hfirst before later hafter))
  cases h with
  | behindDefault hcut hfirst =>
      cases h' with
      | behindDefault hcut' hfirst' => exact (hcut.unique hcut').2
      | atOnce hlater => exact (apart hcut hfirst hlater).elim
  | atOnce hlater =>
      cases h' with
      | behindDefault hcut hfirst => exact (apart hcut hfirst hlater).elim
      | atOnce _ => rfl

/-- Every line has a layout. -/
theorem exists_laidOut (cs : List Char) : ∃ layout, LaidOut cs layout := by
  -- what follows a marker is shorter than the line
  induction hn : cs.length using Nat.strongRecOn generalizing cs with
  | ind n ih =>
      cases hopen : Text.cut openMark cs with
      | none => exact ⟨.text cs, .text (Text.cut_eq_none_iff.mp hopen)⟩
      | some parts =>
          obtain ⟨before, rest⟩ := parts
          have hbefore := Text.cut_eq_some_iff.mp hopen
          cases hclose : Text.cut closeMark rest with
          | none => exact ⟨.unclosed before, .unclosed hbefore (Text.cut_eq_none_iff.mp hclose)⟩
          | some around =>
              obtain ⟨inner, after⟩ := around
              have hshorter : (dropDefault after).length < n := by
                have hopened := Text.length_of_cut hopen
                have hclosed := Text.length_of_cut hclose
                have hdropped := length_dropDefault_le after
                simp only [openMark, closeMark, List.length_cons, List.length_nil]
                  at hopened hclosed
                omega
              obtain ⟨layout, hlayout⟩ := ih _ hshorter (dropDefault after) rfl
              exact ⟨.marker before _ layout, .marker hbefore (Text.cut_eq_some_iff.mp hclose)
                (resumes_dropDefault after) hlayout⟩

/-- A line has one layout. -/
theorem LaidOut.unique {cs : List Char} {layout layout' : Layout} (h : LaidOut cs layout)
    (h' : LaidOut cs layout') : layout = layout' := by
  have unmarked {cs before rest : List Char} (hno : ¬ openMark <:+: cs)
      (hopen : CutAt openMark cs before rest) : False := hno ⟨_, _, hopen.whole.symm⟩
  have unended {rest rest' before before' cs inner after : List Char}
      (hopen : CutAt openMark cs before rest) (hopen' : CutAt openMark cs before' rest')
      (hno : ¬ closeMark <:+: rest) (hclose : CutAt closeMark rest' inner after) : False := by
    obtain ⟨-, rfl⟩ := hopen.unique hopen'
    exact hno ⟨_, _, hclose.whole.symm⟩
  induction h generalizing layout' with
  | text hno =>
      cases h' with
      | text _ => rfl
      | unclosed hopen _ => exact (unmarked hno hopen).elim
      | marker hopen _ _ _ => exact (unmarked hno hopen).elim
  | unclosed hopen hno =>
      cases h' with
      | text hno' => exact (unmarked hno' hopen).elim
      | unclosed hopen' _ => rw [(hopen.unique hopen').1]
      | marker hopen' hclose _ _ => exact (unended hopen hopen' hno hclose).elim
  | marker hopen hclose hresumes _ ih =>
      cases h' with
      | text hno => exact (unmarked hno hopen).elim
      | unclosed hopen' hno => exact (unended hopen' hopen hno hclose).elim
      | marker hopen' hclose' hresumes' hrest' =>
          obtain ⟨rfl, rfl⟩ := hopen.unique hopen'
          obtain ⟨rfl, rfl⟩ := hclose.unique hclose'
          obtain rfl := hresumes.unique hresumes'
          rw [ih hrest']

/-! ## Filling a layout -/

namespace Layout

/-- The expressions of the markers that are closed, from left to right. -/
def expressions : Layout → List String
  | text _ => []
  | unclosed _ => []
  | marker _ expr rest => expr :: rest.expressions

/-- Whether the last marker has no end. -/
def endsOpen : Layout → Bool
  | text _ => false
  | unclosed _ => true
  | marker _ _ rest => rest.endsOpen

end Layout

/-- An expression that was asked for, and the answer. -/
structure Asked where
  expr : String
  answer : Except Fault String

variable {σ : Type}

/-- `Fills value layout s calls r s'`: with the values that `value` gives, `r` comes of a layout; in
doing so the expressions of `calls` are asked for, one after the other, which takes the state from
`s` to `s'`. -/
inductive Fills (value : String → Hosted σ Fault String) :
    Layout → σ → List Asked → Except Fault (List Char) → σ → Prop
  | text {cs : List Char} {s : σ} : Fills value (.text cs) s [] (.ok cs) s
  | unclosed {before : List Char} {s : σ} :
      Fills value (.unclosed before) s [] (.error .unterminatedMarker) s
  | failed {before : List Char} {expr : String} {rest : Layout} {s s' : σ} {fault : Fault} :
      (value expr).run s = (.error fault, s') →
      Fills value (.marker before expr rest) s [⟨expr, .error fault⟩] (.error fault) s'
  | inserted {before : List Char} {expr text : String} {rest : Layout} {s s₁ s' : σ}
      {calls : List Asked} {r : Except Fault (List Char)} :
      (value expr).run s = (.ok text, s₁) → Fills value rest s₁ calls r s' →
      Fills value (.marker before expr rest) s (⟨expr, .ok text⟩ :: calls)
        (r.map (before ++ text.toList ++ ·)) s'

theorem exists_fills (value : String → Hosted σ Fault String) (layout : Layout) (s : σ) :
    ∃ calls r s', Fills value layout s calls r s' := by
  induction layout generalizing s with
  | text cs => exact ⟨_, _, _, .text⟩
  | unclosed before => exact ⟨_, _, _, .unclosed⟩
  | marker before expr rest ih =>
      rcases hvalue : (value expr).run s with ⟨fault | text, s₁⟩
      · exact ⟨_, _, _, .failed hvalue⟩
      · obtain ⟨calls, r, s', hrest⟩ := ih s₁
        exact ⟨_, _, _, .inserted hvalue hrest⟩

/-- What holds of the calls that fill a layout: the expressions are asked for from left to right and
once each, none after one that has no value, and all of them if each has one.  A marker without an
end fails after them. -/
structure Disciplined (layout : Layout) (calls : List Asked) (r : Except Fault (List Char)) :
    Prop where
  inOrder : calls.map Asked.expr <+: layout.expressions
  onlyLastFails : ∀ call ∈ calls.dropLast, ∃ text, call.answer = .ok text
  fails : ∀ call ∈ calls, ∀ fault, call.answer = .error fault → r = .error fault
  completes : (∀ call ∈ calls, ∃ text, call.answer = .ok text) →
    calls.map Asked.expr = layout.expressions ∧
      if layout.endsOpen then ∃ fault, r = .error fault ∧ fault.kind = .malformed
      else ∃ cs, r = .ok cs

theorem Fills.disciplined {value : String → Hosted σ Fault String} {layout : Layout} {s s' : σ}
    {calls : List Asked} {r : Except Fault (List Char)} (h : Fills value layout s calls r s') :
    Disciplined layout calls r := by
  induction h with
  | @text cs s =>
      exact ⟨List.prefix_refl _, List.forall_mem_nil _, List.forall_mem_nil _,
        fun _ => ⟨rfl, cs, rfl⟩⟩
  | unclosed =>
      exact ⟨List.prefix_refl _, List.forall_mem_nil _, List.forall_mem_nil _,
        fun _ => ⟨rfl, _, rfl, rfl⟩⟩
  | @failed before expr rest s s' fault hvalue =>
      refine ⟨?_, List.forall_mem_nil _, ?_, ?_⟩
      · exact List.cons_prefix_cons.mpr ⟨rfl, List.nil_prefix⟩
      · intro call hcall fault' hfault
        obtain rfl := List.mem_singleton.mp hcall
        cases hfault
        rfl
      · intro hall
        obtain ⟨text, htext⟩ := hall _ (List.mem_singleton_self _)
        cases htext
  | @inserted before expr text rest s s₁ s' calls r hvalue hrest ih =>
      refine ⟨?_, ?_, ?_, ?_⟩
      · exact List.cons_prefix_cons.mpr ⟨rfl, ih.inOrder⟩
      · intro call hcall
        cases calls with
        | nil => cases hcall
        | cons next more =>
            rcases List.mem_cons.mp hcall with rfl | hlater
            · exact ⟨text, rfl⟩
            · exact ih.onlyLastFails call hlater
      · intro call hcall fault hfault
        rcases List.mem_cons.mp hcall with rfl | hlater
        · cases hfault
        · rw [ih.fails call hlater fault hfault]
          rfl
      · intro hall
        obtain ⟨hexprs, hends⟩ := ih.completes (List.forall_mem_cons.mp hall).2
        refine ⟨congrArg (expr :: ·) hexprs, ?_⟩
        show if rest.endsOpen then _ else _
        split at hends
        · rename_i hopen
          obtain ⟨fault, rfl, hkind⟩ := hends
          rw [if_pos hopen]
          exact ⟨fault, rfl, hkind⟩
        · rename_i hopen
          obtain ⟨cs, rfl⟩ := hends
          rw [if_neg hopen]
          exact ⟨_, rfl⟩

/-! ## The replacement of markers -/

/-- The values of expressions, with a record of what was asked for and answered. -/
def recorded (value : String → Hosted σ Fault String) (expr : String) :
    Hosted (σ × List Asked) Fault String :=
  ExceptT.mk fun (s, calls) =>
    let (answer, s) := (value expr).run s
    (answer, s, calls ++ [⟨expr, answer⟩])

theorem run_recorded {value : String → Hosted σ Fault String} {expr : String} {s s' : σ}
    {answer : Except Fault String} (h : (value expr).run s = (answer, s')) (done : List Asked) :
    (recorded value expr).run (s, done) = (answer, s', done ++ [⟨expr, answer⟩]) := by
  show (((value expr).run s).1, ((value expr).run s).2,
    done ++ [⟨expr, ((value expr).run s).1⟩]) = _
  rw [h]

/-- Replacing the markers of a line is filling its layout, with a record or without: `frame` says
where the state and the record are kept, if it is. -/
theorem run_of_fills {τ : Type} {value : String → Hosted σ Fault String}
    {value' : String → Hosted τ Fault String} (frame : σ → List Asked → τ)
    (hframe : ∀ {expr s answer s'}, (value expr).run s = (answer, s') → ∀ done,
      (value' expr).run (frame s done) = (answer, frame s' (done ++ [⟨expr, answer⟩])))
    {cs : List Char} {layout : Layout} (hlaid : LaidOut cs layout) {s s' : σ}
    {calls : List Asked} {r : Except Fault (List Char)} (h : Fills value layout s calls r s')
    (done : List Asked) :
    (substituteChars value' cs).run (frame s done) = (r, frame s' (done ++ calls)) := by
  induction h generalizing cs done with
  | text =>
      cases hlaid with
      | text hno =>
          rw [substituteChars_of_unmarked (Text.cut_eq_none_iff.mpr hno), List.append_nil]
          rfl
  | unclosed =>
      cases hlaid with
      | unclosed hopen hno =>
          rw [substituteChars_of_unclosed (Text.cut_eq_some_iff.mpr hopen)
            (Text.cut_eq_none_iff.mpr hno), List.append_nil]
          rfl
  | failed hvalue =>
      cases hlaid with
      | marker hopen hclose _ _ =>
          rw [substituteChars_of_closed (Text.cut_eq_some_iff.mpr hopen)
            (Text.cut_eq_some_iff.mpr hclose), run_bind_of_error (hframe hvalue done)]
  | @inserted before expr text rest s s₁ s' calls r hvalue hrest ih =>
      cases hlaid with
      | @marker _ _ _ inner after next _ hopen hclose hresumes hlater =>
          have hmore := ih hlater (done ++ [⟨String.ofList (Text.trim inner), .ok text⟩])
          rw [hresumes.unique (resumes_dropDefault after), List.append_assoc] at hmore
          rw [substituteChars_of_closed (Text.cut_eq_some_iff.mpr hopen)
            (Text.cut_eq_some_iff.mpr hclose), run_bind_of_ok (hframe hvalue done)]
          cases r with
          | error fault =>
              rw [run_bind_of_error hmore]
              rfl
          | ok more =>
              rw [run_bind_of_ok hmore]
              rfl

theorem run_substitute_of_chars {value : String → Hosted σ Fault String} {line : String}
    {s s' : σ} {r : Except Fault (List Char)}
    (h : (substituteChars value line.toList).run s = (r, s')) :
    (substitute value line).run s = (r.map String.ofList, s') := by
  show (substituteChars value line.toList >>= fun cs => pure (String.ofList cs)).run s = _
  cases r with
  | error fault => exact run_bind_of_error h
  | ok cs => exact run_bind_of_ok h

theorem eq_of_map_ofList {r r' : Except Fault (List Char)}
    (h : r.map String.ofList = r'.map String.ofList) : r = r' := by
  cases r with
  | error fault =>
      cases r' with
      | error fault' =>
          cases h
          rfl
      | ok cs' => cases h
  | ok cs =>
      cases r' with
      | error fault' => cases h
      | ok cs' => rw [String.ofList_injective (Except.ok.inj h)]

/-- The markers of a line are replaced as its layout says, and a line has exactly one layout.  What
comes of it, the state that is left and the calls in between are those of the layout's filling, and
the calls go from left to right, one for each marker, and none follows one that failed. -/
theorem substitute_iff_fills (line : String) :
    ∃ layout, (∀ other, LaidOut line.toList other ↔ other = layout) ∧
      ∀ (σ : Type) (value : String → Hosted σ Fault String) (s : σ) (calls : List Asked)
        (r : Except Fault (List Char)) (s' : σ),
        (Fills value layout s calls r s' ↔
          (substitute (recorded value) line).run (s, []) = (r.map String.ofList, s', calls)) ∧
        (Fills value layout s calls r s' →
          (substitute value line).run s = (r.map String.ofList, s') ∧
            Disciplined layout calls r) := by
  obtain ⟨layout, hlaid⟩ := exists_laidOut line.toList
  refine ⟨layout, fun other => ⟨fun h => h.unique hlaid, fun h => h ▸ hlaid⟩, ?_⟩
  intro σ value s calls r s'
  have noted {calls r s'} (h : Fills value layout s calls r s') :
      (substitute (recorded value) line).run (s, []) = (r.map String.ofList, s', calls) := by
    exact run_substitute_of_chars (run_of_fills Prod.mk run_recorded hlaid h [])
  refine ⟨⟨noted, fun hrun => ?_⟩, fun h => ⟨?_, h.disciplined⟩⟩
  · obtain ⟨calls₀, r₀, s₀, hfills⟩ := exists_fills value layout s
    have heq := (noted hfills).symm.trans hrun
    obtain rfl := eq_of_map_ofList (congrArg Prod.fst heq)
    cases congrArg Prod.snd heq
    exact hfills
  · exact run_substitute_of_chars
      (run_of_fills (fun s _ => s) (fun hvalue _ => hvalue) hlaid h [])

/-- A marker in a value stays as it is, and a default ends in front of the next marker. -/
example : ((substitute (σ := Nat) (fun expr => do
      modify (· + 1)
      return "/*$" ++ expr ++ "$*/") "/*$A$*/x /*$ B $*/y/*-*/z").run 0).1.toOption =
    some "/*$A$*/x /*$B$*/z" := by
  decide +kernel

end Preprocessor.Inline
