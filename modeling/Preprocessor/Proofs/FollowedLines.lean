/-
The lines that a run follows, and what each of them writes.

A run follows lines one after another, those of an included file in the place of the line that asks
for it.  The list of them, each with the step it led to, says what the run writes: an emitted line
its text and its end, a skipped one its end if the lines are to be kept, and any other nothing.
-/
import Preprocessor.Proofs.EmittedText
import Preprocessor.Proofs.RunMirroring

namespace Preprocessor

variable {σ : Type}

/-! ## The lines of a run -/

/-- A line that was followed: its place, the engine before it, and what was to be done after it. -/
structure Followed (σ : Type) where
  site : Site
  line : Line
  engine : Engine σ
  step : Step

namespace Followed

def emitted? (f : Followed σ) : Option String :=
  match f.step with
  | .emit text => some text
  | _ => none

/-- Whether the line neither asked for a file nor excluded its own. -/
def staysInFile (f : Followed σ) : Bool :=
  match f.step with
  | .emit _ | .skip => true
  | _ => false

/-- The values that were put in for the markers of a line that was emitted. -/
def inserted (host : Host σ) (f : Followed σ) : List String :=
  match f.emitted?, LineKind.substitutedPart f.line.content with
  | some _, some part => EngineM.inserted host f.site part f.engine
  | _, _ => []

def piece? (options : Options) (f : Followed σ) : Option Line :=
  match f.step with
  | .emit text => some ⟨text, f.line.terminator⟩
  | .skip => if options.keepLines then some ⟨"", f.line.terminator⟩ else none
  | _ => none

def pieces (options : Options) (fs : List (Followed σ)) : List Line :=
  fs.filterMap (·.piece? options)

theorem pieces_cons (options : Options) (f : Followed σ) (fs : List (Followed σ)) :
    pieces options (f :: fs) = (f.piece? options).toList ++ pieces options fs := by
  rw [pieces, List.filterMap_cons]
  cases f.piece? options with
  | none => rfl
  | some l => rfl

theorem pieces_append (options : Options) (fs gs : List (Followed σ)) :
    pieces options (fs ++ gs) = pieces options fs ++ pieces options gs :=
  List.filterMap_append

/-- The line is one of a text, and following it in some scope led to its step. -/
def Arises (host : Host σ) (f : Followed σ) : Prop :=
  f.line.IsPiece ∧
    ∃ scope p, f.engine.processLine host f.site f.line.content scope = (.ok f.step, p)

/-- What is written for a line is a piece, if no value with an end in it was put in. -/
theorem Arises.isPiece {host : Host σ} {options : Options} {f : Followed σ} {l : Line}
    (h : f.Arises host) (hinserted : ∀ v ∈ f.inserted host, Text.unbroken v.toList = true)
    (hl : f.piece? options = some l) : l.IsPiece := by
  rcases f with ⟨site, line, e, step⟩
  obtain ⟨hline, scope, p, hrun⟩ := h
  cases step with
  | emit text =>
      cases hl
      refine ⟨unbroken_of_emit hrun hline.unbroken fun part hpart => ?_, hline.terminator⟩
      intro v hv
      refine hinserted v ?_
      rw [inserted, hpart]
      exact hv
  | skip =>
      simp only [piece?] at hl
      split at hl
      · cases hl
        exact ⟨rfl, hline.terminator⟩
      · cases hl
  | includeFile target => cases hl
  | exclude => cases hl

end Followed

namespace Source

variable (host : Host σ) (t : FileTree) (options : Options)

/-- The lines of a file that a step asks for, and the engine after them; `inside` gives those of an
included file. -/
def followedInside (inside : Trail → Path → Engine σ → List (Followed σ) × Engine σ)
    (trail : Trail) (path : Path) (step : Step) (e : Engine σ) : List (Followed σ) × Engine σ :=
  match step with
  | .includeFile target =>
    match openInclude t options trail path target with
    | .ok included => inside (trail.enter included) included e
    | .error _ => ([], e)
  | _ => ([], e)

/-- The lines that are followed from a line of a file on, and the engine after them. -/
def followedFrom (inside : Trail → Path → Engine σ → List (Followed σ) × Engine σ)
    (trail : Trail) (path : Path) :
    (index : Nat) → List Line → Scope → Engine σ → List (Followed σ) × Engine σ
  | _, [], _, e => ([], e)
  | index, line :: rest, scope, e =>
    match e.processLine host ⟨path, index⟩ line.content scope with
    | (.error _, _, e₁) => ([], e₁)
    | (.ok step, scope₁, e₁) =>
      let within := followedInside t options inside (trail.atLine index) path step e₁
      let after :=
        if step = .exclude then ([], within.2)
        else followedFrom inside (trail.atLine index) path (index + 1) rest scope₁ within.2
      (⟨⟨path, index⟩, line, e, step⟩ :: (within.1 ++ after.1), after.2)

/-- The lines that are followed in a file and those it includes, to a depth of `room`, and the
engine after them. -/
def followedWithin : (room : Nat) → Trail → Path → Engine σ → List (Followed σ) × Engine σ
  | 0, _, _, e => ([], e)
  | room + 1, trail, path, e =>
    match readText t options path with
    | .error _ => ([], e)
    | .ok decoded =>
      followedFrom host t options (followedWithin room) trail path 0 (Text.lines decoded.text) {} e

/-- The lines that a run follows, in their order. -/
def followed (root : Path) (e : Engine σ) : List (Followed σ) :=
  (followedWithin host t options (t.files.length + 1) (Trail.enter [] root) root e).1

variable {host t options}

theorem text_write (f : Followed σ) (out : Output) :
    (write options f.line out f.step).text = out.text ++ Text.join (f.piece? options).toList := by
  rcases f with ⟨site, line, e, step⟩
  cases step with
  | emit text => simp [write, Followed.piece?, Line.text, String.append_assoc]
  | skip =>
      rw [write, Followed.piece?]
      split
      · simp [Line.text]
      · simp
  | includeFile target => simp [write, Followed.piece?]
  | exclude => simp [write, Followed.piece?]

section

variable {inside : Trail → Path → Engine σ → List (Followed σ) × Engine σ}
  {descend : Trail → Path → Output → RunM σ Output} {trail : Trail} {path : Path} {index : Nat}
  {line : Line} {lines rest : List Line} {scope scope₁ scope' : Scope} {step : Step}
  {out out' : Output} {e e₁ e' : Engine σ} {fileEnd : FileEnd}

theorem followedFrom_of_error {fault : Fault}
    (h : e.processLine host ⟨path, index⟩ line.content scope = (.error fault, scope₁, e₁)) :
    followedFrom host t options inside trail path index (line :: rest) scope e = ([], e₁) := by
  rw [followedFrom, h]

theorem followedFrom_of_exclude
    (h : e.processLine host ⟨path, index⟩ line.content scope = (.ok .exclude, scope₁, e₁)) :
    followedFrom host t options inside trail path index (line :: rest) scope e =
      ([⟨⟨path, index⟩, line, e, .exclude⟩], e₁) := by
  rw [followedFrom, h]
  rfl

theorem followedFrom_cons
    (h : e.processLine host ⟨path, index⟩ line.content scope = (.ok step, scope₁, e₁))
    (hstep : step ≠ .exclude) :
    followedFrom host t options inside trail path index (line :: rest) scope e =
      let within := followedInside t options inside (trail.atLine index) path step e₁
      let after := followedFrom host t options inside (trail.atLine index) path (index + 1) rest
        scope₁ within.2
      (⟨⟨path, index⟩, line, e, step⟩ :: (within.1 ++ after.1), after.2) := by
  rw [followedFrom, h]
  dsimp only
  rw [if_neg hstep]

variable (host t options descend trail path line) in
/-- What a line that does not exclude its file does to the output and the engine, after it was
followed. -/
inductive Advances : Step → Output → Engine σ → Output → Engine σ → Prop
  | emit {text : String} {out : Output} {e : Engine σ} :
      Advances (.emit text) out e (write options line out (.emit text)) e
  | skip {out : Output} {e : Engine σ} : Advances .skip out e (write options line out .skip) e
  | included {target : String} {included : Path} {out out' : Output} {e e' : Engine σ} :
      openInclude t options trail path target = .ok included →
      (descend (trail.enter included) included out).run e = (.ok out', e') →
      Advances (.includeFile target) out e out' e'

/-- Lines that are followed to their end: the first excludes the file, or it leads on to the
others. -/
theorem exists_of_followLines_cons
    (h : (followLines host t options descend trail path index (line :: rest) scope out).run e =
      (.ok (fileEnd, scope', out'), e')) :
    ∃ step scope₁ e₁,
      e.processLine host ⟨path, index⟩ line.content scope = (.ok step, scope₁, e₁) ∧
        (step = .exclude ∧ out' = out ∧ e' = e₁ ∨
          ∃ out₁ e₂, Advances t options descend (trail.atLine index) path line step out e₁ out₁ e₂ ∧
            (followLines host t options descend (trail.atLine index) path (index + 1) rest scope₁
              out₁).run e₂ = (.ok (fileEnd, scope', out'), e')) := by
  rw [followLines] at h
  rcases hline : e.processLine host ⟨path, index⟩ line.content scope with
    ⟨fault | step, scope₁, e₁⟩
  · rw [run_bind_of_error (run_followLine_of_error _ hline)] at h
    cases h
  · rw [run_bind_of_ok (run_followLine_of_ok _ hline)] at h
    refine ⟨step, scope₁, e₁, rfl, ?_⟩
    cases step with
    | emit text => exact .inr ⟨_, _, .emit, h⟩
    | skip => exact .inr ⟨_, _, .skip, h⟩
    | exclude =>
        cases h
        exact .inl ⟨rfl, rfl, rfl⟩
    | includeFile target =>
        dsimp only at h
        cases hopen : openInclude t options (trail.atLine index) path target with
        | error fault =>
            rw [hopen] at h
            cases h
        | ok included =>
            rw [hopen] at h
            dsimp only at h
            rcases hrun : (descend ((trail.atLine index).enter included) included out).run e₁
              with ⟨d | out₁, e₂⟩
            · rw [run_bind_of_error hrun] at h
              cases h
            · rw [run_bind_of_ok hrun] at h
              exact .inr ⟨out₁, e₂, .included hopen hrun, h⟩

variable (options inside descend) in
/-- Files that are included write what the lines that are followed in them write. -/
def WritesFollowed : Prop :=
  ∀ trail path out e out' e', (descend trail path out).run e = (.ok out', e') →
    (inside trail path e).2 = e' ∧
      out'.text = out.text ++ Text.join (Followed.pieces options (inside trail path e).1)

/-- A line that leads on writes its piece, then what the file it asks for writes. -/
theorem Advances.text (hinside : WritesFollowed options inside descend) {f : Followed σ}
    (h : Advances t options descend trail path f.line f.step out e out' e') :
    (followedInside t options inside trail path f.step e).2 = e' ∧
      out'.text = out.text ++ Text.join ((f.piece? options).toList ++
        Followed.pieces options (followedInside t options inside trail path f.step e).1) := by
  rcases f with ⟨site, line, e₀, step⟩
  have halone (ls : List Line) : out.text ++ Text.join ls = out.text ++ Text.join (ls ++ []) := by
    rw [List.append_nil]
  cases h with
  | emit => exact ⟨rfl, (text_write ⟨site, line, e₀, _⟩ out).trans (halone _)⟩
  | skip => exact ⟨rfl, (text_write ⟨site, line, e₀, _⟩ out).trans (halone _)⟩
  | included hopen hrun =>
      dsimp only
      rw [followedInside, hopen]
      exact hinside _ _ _ _ _ _ hrun

/-- The lines of a file write what the lines that are followed write. -/
theorem text_of_followLines (hinside : WritesFollowed options inside descend)
    (h : (followLines host t options descend trail path index lines scope out).run e =
      (.ok (fileEnd, scope', out'), e')) :
    (followedFrom host t options inside trail path index lines scope e).2 = e' ∧
      out'.text = out.text ++ Text.join (Followed.pieces options
        (followedFrom host t options inside trail path index lines scope e).1) := by
  induction lines generalizing trail index scope out e with
  | nil =>
      cases h
      exact ⟨rfl, String.append_empty.symm⟩
  | cons line rest ih =>
      obtain ⟨step, scope₁, e₁, hline, hend⟩ := exists_of_followLines_cons h
      rcases hend with ⟨rfl, rfl, rfl⟩ | ⟨out₁, e₂, hadvances, hrest⟩
      · rw [followedFrom_of_exclude hline]
        exact ⟨rfl, String.append_empty.symm⟩
      · have hstep : step ≠ .exclude := by
          rintro rfl
          cases hadvances
        let f : Followed σ := ⟨⟨path, index⟩, line, e, step⟩
        obtain ⟨he₂, hout₁⟩ := Advances.text (f := f) hinside hadvances
        obtain ⟨he, htext⟩ := ih hrest
        rw [followedFrom_cons hline hstep]
        dsimp only
        rw [he₂]
        refine ⟨he, ?_⟩
        rw [htext, hout₁, Followed.pieces_cons, Followed.pieces_append, String.append_assoc,
          ← Text.join_append, List.append_assoc]

theorem arises_of_mem_followedFrom
    (hinside : ∀ trail path e, ∀ f ∈ (inside trail path e).1, f.Arises host)
    (hlines : ∀ l ∈ lines, l.IsPiece) :
    ∀ f ∈ (followedFrom host t options inside trail path index lines scope e).1,
      f.Arises host := by
  induction lines generalizing trail index scope e with
  | nil => exact fun f hf => absurd hf List.not_mem_nil
  | cons line rest ih =>
      obtain ⟨hline, hrest⟩ := List.forall_mem_cons.mp hlines
      rcases hrun : e.processLine host ⟨path, index⟩ line.content scope with
        ⟨fault | step, scope₁, e₁⟩
      · rw [followedFrom_of_error hrun]
        exact fun f hf => absurd hf List.not_mem_nil
      · have hhere : Followed.Arises host ⟨⟨path, index⟩, line, e, step⟩ :=
          ⟨hline, scope, _, hrun⟩
        by_cases hstep : step = .exclude
        · subst hstep
          rw [followedFrom_of_exclude hrun]
          exact List.forall_mem_singleton.mpr hhere
        · rw [followedFrom_cons hrun hstep]
          refine List.forall_mem_cons.mpr ⟨hhere, fun f hf => ?_⟩
          rcases List.mem_append.mp hf with hf | hf
          · unfold followedInside at hf
            split at hf
            · split at hf
              · exact hinside _ _ _ f hf
              · exact absurd hf List.not_mem_nil
            · exact absurd hf List.not_mem_nil
          · exact ih hrest f hf

/-- If no line asks for a file or excludes its own, then the lines that are followed are those of
the file. -/
theorem map_line_followedFrom
    (h : (followLines host t options descend trail path index lines scope out).run e =
      (.ok (fileEnd, scope', out'), e'))
    (hstays : ∀ f ∈ (followedFrom host t options inside trail path index lines scope e).1,
      f.staysInFile = true) :
    (followedFrom host t options inside trail path index lines scope e).1.map (·.line) = lines := by
  induction lines generalizing trail index scope out e with
  | nil => rfl
  | cons line rest ih =>
      obtain ⟨step, scope₁, e₁, hline, hend⟩ := exists_of_followLines_cons h
      rcases hend with ⟨rfl, -⟩ | ⟨out₁, e₂, hadvances, hrest⟩
      · rw [followedFrom_of_exclude hline] at hstays
        cases List.forall_mem_singleton.mp hstays
      · cases hadvances with
        | emit =>
            rw [followedFrom_cons hline Step.noConfusion] at hstays ⊢
            exact congrArg (line :: ·) (ih hrest (List.forall_mem_cons.mp hstays).2)
        | skip =>
            rw [followedFrom_cons hline Step.noConfusion] at hstays ⊢
            exact congrArg (line :: ·) (ih hrest (List.forall_mem_cons.mp hstays).2)
        | included hopen hrun =>
            rw [followedFrom_cons hline Step.noConfusion] at hstays
            cases (List.forall_mem_cons.mp hstays).1

end

theorem followedWithin_succ {path : Path} {decoded : Decoded}
    (hread : readText t options path = .ok decoded) (room : Nat) (trail : Trail) (e : Engine σ) :
    followedWithin host t options (room + 1) trail path e =
      followedFrom host t options (followedWithin host t options room) trail path 0
        (Text.lines decoded.text) {} e := by
  rw [followedWithin, hread]

theorem text_of_process {room : Nat} {trail : Trail} {path : Path} {out out' : Output}
    {e e' : Engine σ} {fileEnd : FileEnd} {bom : Bool}
    (h : (process host t options room trail path out).run e = (.ok (fileEnd, bom, out'), e')) :
    (followedWithin host t options room trail path e).2 = e' ∧
      out'.text = out.text ++ Text.join (Followed.pieces options
        (followedWithin host t options room trail path e).1) := by
  induction room generalizing trail path out out' e e' fileEnd bom with
  | zero => cases h
  | succ room ih =>
      rw [process_succ] at h
      cases hread : readText t options path with
      | error fault =>
          rw [processWith, hread] at h
          cases h
      | ok decoded =>
          obtain ⟨-, scope, hlines, -⟩ := (run_processWith_iff hread).mp h
          rw [followedWithin_succ hread]
          refine text_of_followLines (fun trail path out e out' e' hrun => ?_) hlines
          obtain ⟨_, _, hprocess⟩ := exists_of_descendWithin hrun
          exact ih hprocess

theorem arises_of_mem_followedWithin (room : Nat) (trail : Trail) (path : Path) (e : Engine σ) :
    ∀ f ∈ (followedWithin host t options room trail path e).1, f.Arises host := by
  induction room generalizing trail path e with
  | zero => exact fun f hf => absurd hf List.not_mem_nil
  | succ room ih =>
      cases hread : readText t options path with
      | error fault =>
          rw [followedWithin, hread]
          exact fun f hf => absurd hf List.not_mem_nil
      | ok decoded =>
          rw [followedWithin_succ hread]
          exact arises_of_mem_followedFrom ih fun l hl => Text.isPiece_of_mem_lines hl

section

variable {root : Path} {e e' : Engine σ} {text : String} {bom : Bool} {outname : Option String}

/-- A text that keeps its comments is what was written for the lines that were followed. -/
theorem text_eq_join_pieces (hcomments : options.removeComments = false)
    (h : (preprocess host t options root).run e = (.ok (.text text bom outname), e')) :
    text = Text.join (Followed.pieces options (followed host t options root e)) := by
  obtain ⟨fileEnd, out, hrun, -, hfinish, -⟩ := run_preprocess_text_iff.mp h
  rw [finish, if_neg (by rw [hcomments]; exact Bool.false_ne_true)] at hfinish
  cases hfinish
  have htext := (text_of_process hrun).2
  rwa [String.empty_append] at htext

theorem isPiece_of_mem_pieces
    (hinserted : ∀ f ∈ followed host t options root e, ∀ v ∈ f.inserted host,
      Text.unbroken v.toList = true) :
    ∀ l ∈ Followed.pieces options (followed host t options root e), l.IsPiece := by
  intro l hl
  obtain ⟨f, hf, hpiece⟩ := List.mem_filterMap.mp hl
  have harises := arises_of_mem_followedWithin _ _ _ _ f hf
  exact harises.isPiece (hinserted f hf) hpiece

/-- If no line asks for a file or excludes its own, the lines that are followed are those of the
root. -/
theorem map_line_followed {decoded : Decoded} (hread : readText t options root = .ok decoded)
    (h : (preprocess host t options root).run e = (.ok (.text text bom outname), e'))
    (hstays : ∀ f ∈ followed host t options root e, f.staysInFile = true) :
    (followed host t options root e).map (·.line) = Text.lines decoded.text := by
  obtain ⟨fileEnd, out, hrun, -⟩ := run_preprocess_text_iff.mp h
  rw [process_succ] at hrun
  obtain ⟨-, scope, hlines, -⟩ := (run_processWith_iff hread).mp hrun
  rw [followed, followedWithin_succ hread] at hstays ⊢
  exact map_line_followedFrom hlines hstays

end

end Source

end Preprocessor
