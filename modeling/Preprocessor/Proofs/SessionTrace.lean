/-
A run of a session, file by file.

A run handles its files one after another, each in the state that the one before it left, until
it is asked to stop or a failure ends it.  What became of each file is listed here as data.  A
run ends in the state in which its last file left the session, and its summary records exactly the
files of the list.

All that is shown of runs is shown by the recursion of a run, in which a run on no file, a run that
is stopped, a failure that ends it and a file after which it goes on are the four cases.  An
invariant of the tree needs less: what every commit keeps is kept by every file, and so by every
run that clears nothing.
-/
import Preprocessor.Proofs.Computation
import Preprocessor.Session

namespace Preprocessor

variable {σ α : Type}

/-! ## One file -/

namespace SessionState

/-- The state with an entry added to the log. -/
def noted (state : SessionState σ) (level : Level) (message : String) : SessionState σ :=
  { state with log := state.log.push ⟨level, message⟩ }

def toldOf (state : SessionState σ) (d : Diagnostic) : SessionState σ :=
  { state with told := state.told.push d }

end SessionState

/-- A file of a run: where its output goes, what became of it, and the states in which the session
was before and after. -/
structure Handled (σ : Type) where
  source : SourceFile
  destination : Path
  result : Except Diagnostic FileStatus
  before : SessionState σ
  after : SessionState σ

namespace Handled

/-- The status under which a file is recorded. -/
def status (h : Handled σ) : FileStatus :=
  match h.result with
  | .ok status => status
  | .error _ => .failed

def endsRun (policy : ErrorPolicy) (h : Handled σ) : Bool :=
  match h.result with
  | .ok _ => false
  | .error _ => policy == .stopOnFirst

/-- The state once the outcome of a file has been reported. -/
def reported (h : Handled σ) : SessionState σ :=
  match h.result with
  | .ok status =>
    h.after.noted .info
      (h.source.relative.text ++ " -> " ++ h.destination.text ++ " (" ++ status.name ++ ")")
  | .error d => (h.after.toldOf d).noted .error d.text

theorem tree_reported (h : Handled σ) : h.reported.tree = h.after.tree := by
  unfold reported
  split <;> rfl

def record (c : Config) (h : Handled σ) : FileRecord :=
  Session.recordOf c h.source h.destination h.status

end Handled

def Summary.add (c : Config) (summary : Summary) (h : Handled σ) : Summary :=
  match h.result with
  | .ok _ => summary.push (h.record c)
  | .error d =>
    { summary.push (h.record c) with errors := (summary.push (h.record c)).errors.push d.text }

theorem Summary.records_add (c : Config) (summary : Summary) (h : Handled σ) :
    (summary.add c h).records = summary.records.push (h.record c) := by
  unfold add
  split <;> rfl

namespace Session

open SessionM

variable {s : Session σ} {fixed : Fixed} {started : Moment} {source : SourceFile}
  {rest : List SourceFile} {index : Nat} {summary : Summary} {state : SessionState σ}

def engineFor (s : Session σ) (fixed : Fixed) (started : Moment) (state : SessionState σ) :
    Engine σ where
  env := .forFile fixed.globals fixed.properties s.process started s.config.unknownAsFalse
  host := state.host
  log := state.log

theorem run_withEngine {env : Environment} {x : RunM σ α} {r : Except Diagnostic α}
    {e : Engine σ} (h : x.run { env := env, host := state.host, log := state.log } = (r, e)) :
    (withEngine env x).run state = ((r, e), { state with host := e.host, log := e.log }) := by
  change withEngine env x state = _
  rw [withEngine, h]

variable {e : Engine σ}

theorem run_processFile_of_error {d : Diagnostic}
    (h : (Source.preprocess s.host state.tree s.config.options source.path).run
      (s.engineFor fixed started state) = (.error d, e)) :
    (s.processFile fixed started source).run state =
      ((s.config.destination.join source.relative, .error d),
        { state with host := e.host, log := e.log }) := by
  unfold processFile
  simp only [StateT.run_bind, StateT.run_get, pure_bind]
  rw [run_withEngine h]
  rfl

theorem run_processFile_of_excluded
    (h : (Source.preprocess s.host state.tree s.config.options source.path).run
      (s.engineFor fixed started state) = (.ok .excluded, e)) :
    (s.processFile fixed started source).run state =
      ((s.config.destination.join source.relative, .ok .excluded),
        { state with host := e.host, log := e.log }) := by
  unfold processFile
  simp only [StateT.run_bind, StateT.run_get, pure_bind]
  rw [run_withEngine h]
  rfl

/-- Where the output of a file goes, which may have given it a name. -/
def destinationOf (s : Session σ) (source : SourceFile) (outname : Option String) : Path :=
  outname.elim (s.config.destination.join source.relative)
    (renamed (s.config.destination.join source.relative))

theorem run_processFile_of_output {text : String} {bom : Bool} {outname : Option String}
    (h : (Source.preprocess s.host state.tree s.config.options source.path).run
      (s.engineFor fixed started state) = (.ok (.text text bom outname), e)) :
    (s.processFile fixed started source).run state =
      let (r, t) := commitOutput s.config s.disk source (s.destinationOf source outname) text bom
        state.tree
      ((s.destinationOf source outname, r),
        { state with host := e.host, log := e.log, tree := t }) := by
  unfold processFile
  simp only [StateT.run_bind, StateT.run_get, pure_bind]
  rw [run_withEngine h]
  rfl

/-- What every commit keeps of a tree is kept by a file. -/
theorem processFile_keeps {P : FileTree → Prop}
    (h : ∀ t p bytes, P t → P (t.commit s.disk s.config.commitOptions p bytes).2)
    (fixed : Fixed) (started : Moment) (source : SourceFile) (hstate : P state.tree) :
    P ((s.processFile fixed started source).run state).2.tree := by
  rcases hrun : (Source.preprocess s.host state.tree s.config.options source.path).run
    (s.engineFor fixed started state) with ⟨d | outcome, e⟩
  · rw [run_processFile_of_error hrun]
    exact hstate
  · cases outcome with
    | excluded =>
        rw [run_processFile_of_excluded hrun]
        exact hstate
    | text text bom outname =>
        rw [run_processFile_of_output hrun]
        dsimp only
        unfold commitOutput
        split
        · exact hstate
        · rename_i bytes _
          have hcommit := h state.tree (s.destinationOf source outname) bytes hstate
          split <;> rename_i heq <;> rw [heq] at hcommit <;> exact hcommit

/-- Handles a file. -/
def handle (s : Session σ) (fixed : Fixed) (started : Moment) (source : SourceFile)
    (state : SessionState σ) : Handled σ :=
  let before := state.noted .debug ("Preprocessing " ++ source.relative.text)
  let o := (s.processFile fixed started source).run before
  ⟨source, o.1.1, o.1.2, before, o.2⟩

def handled (s : Session σ) (fixed : Fixed) (started : Moment) :
    (index : Nat) → List SourceFile → SessionState σ → List (Handled σ)
  | _, [], _ => []
  | index, source :: rest, state =>
    if s.stops index state.host then []
    else
      let h := s.handle fixed started source state
      if h.endsRun s.config.errorPolicy then [h]
      else h :: s.handled fixed started (index + 1) rest h.reported

theorem run_processFiles_of_stop (hstop : s.stops index state.host = true) :
    (s.processFiles fixed started index (source :: rest) summary).run state =
      (.ok { summary with cancelled := true },
        state.noted .warning "Preprocessing cancelled") := by
  have hget : (get : SessionM σ (SessionState σ)).run state = (.ok state, state) := rfl
  rw [processFiles, run_bind_of_ok hget, if_pos hstop]
  rfl

/-- A file that does not end the run is added to the summary and the run goes on; one that ends it
does so with its failure. -/
theorem run_processFiles_of_go (hgo : s.stops index state.host = false) {h : Handled σ}
    (hh : s.handle fixed started source state = h) (rest : List SourceFile) (summary : Summary) :
    (h.endsRun s.config.errorPolicy = false →
      (s.processFiles fixed started index (source :: rest) summary).run state =
        (s.processFiles fixed started (index + 1) rest (summary.add s.config h)).run h.reported) ∧
    (h.endsRun s.config.errorPolicy = true →
      ∃ d, h.result = .error d ∧
        (s.processFiles fixed started index (source :: rest) summary).run state =
          (.error d, h.reported)) := by
  have hget : (get : SessionM σ (SessionState σ)).run state = (.ok state, state) := rfl
  rcases hfile : (s.processFile fixed started source).run
    (state.noted .debug ("Preprocessing " ++ source.relative.text)) with ⟨⟨destination, r⟩, after⟩
  have hnote : (note .debug ("Preprocessing " ++ source.relative.text) : SessionM σ Unit).run
      state = (.ok (), state.noted .debug ("Preprocessing " ++ source.relative.text)) := rfl
  have hlift : (liftM (s.processFile fixed started source) : SessionM σ _).run
      (state.noted .debug ("Preprocessing " ++ source.relative.text)) =
        (.ok (destination, r), after) := by
    change (Except.ok ((s.processFile fixed started source).run _).1,
      ((s.processFile fixed started source).run _).2) = _
    rw [hfile]
  rw [handle, hfile] at hh
  subst hh
  rw [processFiles, run_bind_of_ok hget, if_neg (by rw [hgo]; exact Bool.false_ne_true),
    run_bind_of_ok hnote, run_bind_of_ok hlift]
  cases r with
  | ok status => exact ⟨fun _ => rfl, fun hends => absurd hends Bool.false_ne_true⟩
  | error d =>
      cases hpolicy : s.config.errorPolicy with
      | stopOnFirst =>
          exact ⟨fun hends => absurd hends Bool.false_ne_true.symm, fun _ => ⟨d, rfl, rfl⟩⟩
      | bestEffort => exact ⟨fun _ => rfl, fun hends => absurd hends Bool.false_ne_true⟩

/-- The steps of a run, as an induction: what holds of an empty list, of a run that is stopped and
of a failure that ends it, and passes from the rest of a run to the whole, holds of every run. -/
theorem processFiles_induction (s : Session σ) (fixed : Fixed) (started : Moment)
    {P : List (Handled σ) → SessionState σ → Summary → Except Diagnostic Summary →
      SessionState σ → Prop}
    (done : ∀ state summary, P [] state summary (.ok summary) state)
    (stopped : ∀ state summary, P [] state summary (.ok { summary with cancelled := true })
      (state.noted .warning "Preprocessing cancelled"))
    (ended : ∀ source state summary d, (s.handle fixed started source state).result = .error d →
      P [s.handle fixed started source state] state summary (.error d)
        (s.handle fixed started source state).reported)
    (goes : ∀ source state summary hs r state',
      P hs (s.handle fixed started source state).reported
        (summary.add s.config (s.handle fixed started source state)) r state' →
      P (s.handle fixed started source state :: hs) state summary r state')
    (index : Nat) (sources : List SourceFile) (state : SessionState σ) (summary : Summary) :
    P (s.handled fixed started index sources state) state summary
      ((s.processFiles fixed started index sources summary).run state).1
      ((s.processFiles fixed started index sources summary).run state).2 := by
  induction sources generalizing index state summary with
  | nil => exact done state summary
  | cons source rest ih =>
      rw [handled]
      cases hgo : s.stops index state.host with
      | true =>
          rw [run_processFiles_of_stop hgo, if_pos rfl]
          exact stopped state summary
      | false =>
          obtain ⟨hrest, hend⟩ := run_processFiles_of_go hgo rfl rest summary
          rw [if_neg Bool.false_ne_true]
          dsimp only
          cases hends : (s.handle fixed started source state).endsRun s.config.errorPolicy with
          | true =>
              obtain ⟨d, hresult, hrun⟩ := hend hends
              rw [hrun, if_pos rfl]
              exact ended source state summary d hresult
          | false =>
              rw [hrest hends, if_neg Bool.false_ne_true]
              exact goes source state summary _ _ _ (ih _ _ _)

/-- The summary of a run records the files that it handled, after those recorded before. -/
theorem records_of_processFiles (sources : List SourceFile) (state : SessionState σ)
    {summary summary' : Summary} {state' : SessionState σ}
    (h : (s.processFiles fixed started index sources summary).run state =
      (.ok summary', state')) :
    summary'.records.toList =
      summary.records.toList ++
        (s.handled fixed started index sources state).map (Handled.record s.config) := by
  have hrun := processFiles_induction s fixed started
    (P := fun hs _ summary r _ => ∀ summary', r = .ok summary' →
      summary'.records.toList = summary.records.toList ++ hs.map (Handled.record s.config))
    ?_ ?_ ?_ ?_ index sources state summary
  · exact hrun summary' (by rw [h])
  · intro state summary summary' hr
    cases hr
    simp
  · intro state summary summary' hr
    cases hr
    simp
  · intro source state summary d _ summary' hr
    cases hr
  · intro source state summary hs r state' ih summary' hr
    rw [ih summary' hr, Summary.records_add, List.map_cons]
    simp

/-! ## A whole run -/

section

variable {κ : Type} {kept : SessionState σ → κ}

theorem quiet_ofFault (r : Except Fault α) : Quiet kept (ofFault r : SessionM σ α) := by
  cases r with
  | ok a => exact .pure a
  | error fault => exact .throw _

theorem quiet_withEngine
    (hkept : ∀ state host log, kept { state with host := host, log := log } = kept state)
    (env : Environment) (x : RunM σ α) : Quiet kept (liftM (withEngine env x) : SessionM σ _) := by
  intro state r state' hrun
  cases hrun
  exact hkept state _ _

theorem quiet_loadGlobals
    (hkept : ∀ state host log, kept { state with host := host, log := log } = kept state)
    (s : Session σ) (properties : Variables) (started : Moment) :
    Quiet kept (s.loadGlobals properties started) := by
  refine (quiet_ofFault _).bind fun initial => ?_
  refine Quiet.get.bind fun state => ?_
  refine (quiet_withEngine hkept _ _).bind fun outcome => ?_
  rcases outcome with ⟨r, e⟩
  cases r with
  | ok _ => exact .pure _
  | error d => exact .throw d

end

theorem quiet_prepare (hclear : s.config.clearDestination = false) (started : Moment) :
    Quiet SessionState.tree (s.prepare started) := by
  unfold prepare
  rw [hclear, Bool.false_and, if_neg Bool.false_ne_true]
  refine (quiet_ofFault _).bind fun properties => ?_
  exact (quiet_loadGlobals (fun _ _ _ => rfl) s _ started).bind fun globals => .pure _

/-- The state once the fixed variables are known. -/
def loaded (fixed : Fixed) (state : SessionState σ) : SessionState σ :=
  state.noted .debug ("Loaded " ++ toString fixed.globals.length ++ " global variable(s) and "
    ++ toString fixed.properties.length ++ " property value(s)")

def handledIn (s : Session σ) (started : Moment) (sources : List SourceFile)
    (state : SessionState σ) : List (Handled σ) :=
  match (s.prepare started).run state with
  | (.ok fixed, state) => s.handled fixed started 0 sources (loaded fixed state)
  | (.error _, _) => []

variable {finished : Moment} {sources : List SourceFile} {state₁ state₂ : SessionState σ}
  {d : Diagnostic}

theorem run_of_prepare_error (hprepare : (s.prepare started).run state = (.error d, state₁)) :
    (s.run started finished sources).run state = (.error d, state₁.toldOf d) := by
  have htelling : (telling (s.prepare started)).run state = (.error d, state₁.toldOf d) :=
    run_tryCatch_of_error hprepare
  rw [Session.run, run_bind_of_error htelling]

theorem run_of_prepare (hprepare : (s.prepare started).run state = (.ok fixed, state₁)) :
    (s.run started finished sources).run state = (do
      let summary ← s.processFiles fixed started 0 sources { started := started }
      note .info (closing summary.counts)
      return { summary with finished := some finished }).run (loaded fixed state₁) := by
  have htelling : (telling (s.prepare started)).run state = (.ok fixed, state₁) :=
    run_tryCatch_of_ok hprepare
  rw [Session.run, run_bind_of_ok htelling]
  rfl

/-- A run that fails at a file ends in the state that the file left. -/
theorem run_of_files_error (hprepare : (s.prepare started).run state = (.ok fixed, state₁))
    (hfiles : (s.processFiles fixed started 0 sources { started := started }).run
      (loaded fixed state₁) = (.error d, state₂)) :
    (s.run started finished sources).run state = (.error d, state₂) := by
  rw [run_of_prepare hprepare, run_bind_of_error hfiles]

theorem run_of_files (hprepare : (s.prepare started).run state = (.ok fixed, state₁))
    (hfiles : (s.processFiles fixed started 0 sources { started := started }).run
      (loaded fixed state₁) = (.ok summary, state₂)) :
    (s.run started finished sources).run state =
      (.ok { summary with finished := some finished },
        state₂.noted .info (closing summary.counts)) := by
  rw [run_of_prepare hprepare, run_bind_of_ok hfiles]
  rfl

/-- What every commit keeps of a tree is kept by a run that clears nothing. -/
theorem run_keeps (s : Session σ) {P : FileTree → Prop}
    (h : ∀ t p bytes, P t → P (t.commit s.disk s.config.commitOptions p bytes).2)
    (hclear : s.config.clearDestination = false) (started finished : Moment)
    (sources : List SourceFile) (hstate : P state.tree) :
    P ((s.run started finished sources).run state).2.tree := by
  have hhandle (source : SourceFile) (state : SessionState σ) (fixed : Fixed)
      (hstate : P state.tree) : P (s.handle fixed started source state).reported.tree := by
    rw [Handled.tree_reported]
    exact processFile_keeps h fixed started source hstate
  rcases hprepare : (s.prepare started).run state with ⟨d | fixed, state₁⟩
  · rw [run_of_prepare_error hprepare]
    exact quiet_prepare hclear started state _ state₁ hprepare ▸ hstate
  · have htree : P (loaded fixed state₁).tree :=
      quiet_prepare hclear started state _ state₁ hprepare ▸ hstate
    have hfiles := processFiles_induction s fixed started
      (P := fun _ state _ _ state' => P state.tree → P state'.tree) (fun _ _ => id)
      (fun _ _ => id) (fun source state _ _ _ => hhandle source state fixed)
      (fun source state _ _ _ _ ih hstate => ih (hhandle source state fixed hstate)) 0 sources
      (loaded fixed state₁) { started := started } htree
    rcases hrun : (s.processFiles fixed started 0 sources { started := started }).run
      (loaded fixed state₁) with ⟨d | summary, state₂⟩ <;> rw [hrun] at hfiles
    · rw [run_of_files_error hprepare hrun]
      exact hfiles
    · rw [run_of_files hprepare hrun]
      exact hfiles

end Session

end Preprocessor
