/-
A run that writes nothing foretells the run that writes.

The two runs look at trees that drift apart: one stays as it was, the other takes up the output of
every file.  As long as a file looks up nothing that an earlier file has changed, it comes to the
same in both, and the runs tell it apart only by its status.  A path may find its way through a
directory that an earlier output has brought about, so it is not enough that no output is read.

That no commit fails has to be asked for, since a run that writes nothing commits nothing and
cannot come upon such a failure.  Nothing may be cleared, because the run that writes nothing would
not clear it, and would find files that the other run has no more.
-/
import Preprocessor.Proofs.ErrorPolicies
import Preprocessor.Proofs.LookedUpPaths
import Preprocessor.Proofs.UnreadLog

namespace Preprocessor

variable {σ : Type}

open FileTree

/-! ## What is foretold -/

/-- The status of a file in a run that writes nothing. -/
def FileStatus.forecast : FileStatus → FileStatus
  | written => dryRun
  | unchanged => dryRun
  | status => status

def Counts.forecast (c : Counts) : Counts :=
  { c with written := 0, unchanged := 0, dryRun := c.dryRun + c.written + c.unchanged }

def FileRecord.forecast (r : FileRecord) : FileRecord :=
  { r with status := r.status.forecast }

/-- The summary of a run that writes nothing. -/
def Summary.forecast (summary : Summary) : Summary :=
  { summary with
    counts := summary.counts.forecast
    records := summary.records.map FileRecord.forecast }

/-- Whether output could not be put in its place. -/
def Fault.isOfCommit : Fault → Bool
  | file (.createDirectory _) _ => true
  | file (.createTemporary _) _ => true
  | file (.write _) _ => true
  | file (.replace _) _ => true
  | _ => false

theorem Counts.forecast_add (c : Counts) (status : FileStatus) :
    (c.add status).forecast = c.forecast.add status.forecast := by
  cases status <;> simp [Counts.add, forecast, FileStatus.forecast] <;> omega

theorem Summary.forecast_push (summary : Summary) (r : FileRecord) :
    (summary.push r).forecast = summary.forecast.push r.forecast := by
  unfold forecast push
  rw [Array.map_push, Counts.forecast_add]
  rfl

namespace FileTree

variable {t t' : FileTree} {disk : Disk} {options : CommitOptions} {p : Path} {bytes : List UInt8}
  {fault : Fault}

theorem isOfCommit_of_fill (h : t.fill disk p bytes = .error fault) : fault.isOfCommit = true := by
  unfold fill writeTemporary at h
  repeat' split at h
  all_goals cases h
  · rename_i hwrite
    dsimp only at hwrite
    repeat' split at hwrite
    all_goals cases hwrite <;> rfl
  · rfl

theorem isOfCommit_of_commit (h : t.commit disk options p bytes = (.error fault, t')) :
    fault.isOfCommit = true := by
  unfold commit at h
  split at h
  · cases h
  · split at h
    · cases h
    · rcases place_cases h with ⟨e, -, hfault⟩ | ⟨t₁, -, ⟨fault', hfill, hfault, -⟩ | ⟨-, hwritten⟩⟩
      · cases hfault
        rfl
      · cases hfault
        exact isOfCommit_of_fill hfill
      · cases hwritten

theorem ne_dryRun_of_commit (h : options.dryRun = false) (t : FileTree) (disk : Disk) (p : Path)
    (bytes : List UInt8) : (t.commit disk options p bytes).1 ≠ .ok .dryRun := by
  unfold commit place
  rw [h, if_neg Bool.false_ne_true]
  split
  · intro hr
    cases hr
  · split
    · intro hr
      cases hr
    · split <;> intro hr <;> cases hr

end FileTree

namespace Session

variable {s : Session σ} {fixed : Fixed} {started finished : Moment} {source : SourceFile}
  {state state' : SessionState σ}

/-- The session that writes nothing. -/
def forShow (s : Session σ) : Session σ :=
  { s with config := { s.config with dryRun := true } }

/-! ## One file -/

def lookupsOf (s : Session σ) (fixed : Fixed) (started : Moment) (source : SourceFile)
    (state : SessionState σ) : List Path :=
  Source.lookups s.host state.tree s.config.options source.path (s.engineFor fixed started state)

/-- A file comes to the same in another state of the session in which all that it looks up is named
alike. -/
theorem exists_run_of_alike (hhost : state'.host = state.host)
    (h : ∀ p ∈ s.lookupsOf fixed started source state, NamesAlike state.tree state'.tree p)
    {r : Except Diagnostic Outcome} {e : Engine σ}
    (hrun : (Source.preprocess s.host state.tree s.config.options source.path).run
      (s.engineFor fixed started state) = (r, e)) :
    ∃ log, (Source.preprocess s.host state'.tree s.config.options source.path).run
      (s.engineFor fixed started state') = (r, { e with log := log }) := by
  have hengine : s.engineFor fixed started state' =
      { s.engineFor fixed started state with log := state'.log } := by
    rw [engineFor, hhost]
    rfl
  have hlog := Source.exists_log_of_preprocess s.host state'.tree s.config.options source.path
    (s.engineFor fixed started state) state'.log
  rwa [Source.run_preprocess_alike h, hrun, ← hengine] at hlog

theorem evolves_processFile (s : Session σ) (fixed : Fixed) (started : Moment)
    (source : SourceFile) (state : SessionState σ) :
    Evolves state.tree ((s.processFile fixed started source).run state).2.tree :=
  processFile_keeps (fun t p bytes ht => ht.trans (evolves_commit t s.disk _ p bytes)) fixed
    started source (.refl _)

/-- The states of the two runs: one tree has stayed as it was, and the other has come about from
it. -/
structure Foretells (t : FileTree) (state state' : SessionState σ) : Prop where
  host : state'.host = state.host
  told : state'.told = state.told
  tree : state'.tree = t
  evolves : Evolves t state.tree

theorem commitOutput_forShow (s : Session σ) (source : SourceFile)
    (destination : Path) (text : String) (bom : Bool) (t t' : FileTree)
    (hcommit : ∀ d, (commitOutput s.config s.disk source destination text bom t).1 = .error d →
      d.fault.isOfCommit = false) :
    commitOutput s.forShow.config s.forShow.disk source destination text bom t' =
      ((commitOutput s.config s.disk source destination text bom t).1.map FileStatus.forecast,
        t') := by
  unfold commitOutput at hcommit ⊢
  have hencoding : s.forShow.config.targetEncoding = s.config.targetEncoding := rfl
  rw [hencoding]
  cases hencode : s.config.targetEncoding.encode text
    (bom && s.config.targetEncoding == .utf8) with
  | error e => rfl
  | ok bytes =>
      rw [hencode] at hcommit
      have hforShow : t'.commit s.forShow.disk s.forShow.config.commitOptions destination bytes =
        (.ok .dryRun, t') := rfl
      dsimp only at hcommit ⊢
      rw [hforShow]
      rcases hreal : t.commit s.disk s.config.commitOptions destination bytes with ⟨r, t₁⟩
      rw [hreal] at hcommit
      rcases FileTree.commit_cases hreal with
        ⟨rfl, rfl⟩ | ⟨rfl, rfl, -⟩ | ⟨rfl, -⟩ | ⟨⟨fault, rfl⟩, -⟩
      · rfl
      · rfl
      · rfl
      · have hfault := (hcommit _ rfl).symm.trans (isOfCommit_of_commit hreal)
        exact absurd hfault Bool.false_ne_true

/-- A file that looks up nothing that has changed comes to the same in both runs. -/
theorem foretells_processFile {t : FileTree} (hstates : Foretells t state state')
    (hreads : ∀ p ∈ s.lookupsOf fixed started source state, Undisturbed t state.tree p)
    (hcommit : ∀ d, ((s.processFile fixed started source).run state).1.2 = .error d →
      d.fault.isOfCommit = false) :
    let o := (s.processFile fixed started source).run state
    let o' := (s.forShow.processFile fixed started source).run state'
    o'.1.1 = o.1.1 ∧ o'.1.2 = o.1.2.map FileStatus.forecast ∧ Foretells t o.2 o'.2 := by
  intro o o'
  have halike : ∀ p ∈ s.lookupsOf fixed started source state,
      NamesAlike state.tree state'.tree p := fun p hp =>
    hstates.tree ▸ ((hreads p hp).namesAlike hstates.evolves).symm
  have hevolves := hstates.evolves.trans (s.evolves_processFile fixed started source state)
  rcases hrun : (Source.preprocess s.host state.tree s.config.options source.path).run
    (s.engineFor fixed started state) with ⟨r, e⟩
  obtain ⟨log, hrun'⟩ := exists_run_of_alike hstates.host halike hrun
  cases r with
  | error d =>
      have hreal : o = _ := run_processFile_of_error hrun
      have hshow : o' = _ := run_processFile_of_error (s := s.forShow) hrun'
      rw [hreal, hshow]
      exact ⟨rfl, rfl, rfl, hstates.told, hstates.tree, hstates.evolves⟩
  | ok outcome =>
      cases outcome with
      | excluded =>
          have hreal : o = _ := run_processFile_of_excluded hrun
          have hshow : o' = _ := run_processFile_of_excluded (s := s.forShow) hrun'
          rw [hreal, hshow]
          exact ⟨rfl, rfl, rfl, hstates.told, hstates.tree, hstates.evolves⟩
      | text text bom outname =>
          have hreal : o = _ := run_processFile_of_output hrun
          have hshow : o' = _ := run_processFile_of_output (s := s.forShow) hrun'
          have hcommit' : ∀ d, o.1.2 = .error d → d.fault.isOfCommit = false := hcommit
          have hevolves' : Evolves t o.2.tree := hevolves
          rw [hreal] at hcommit' hevolves' ⊢
          rw [hshow]
          dsimp only at hcommit' ⊢
          have hdestination : s.forShow.destinationOf source outname =
            s.destinationOf source outname := rfl
          rw [hdestination,
            commitOutput_forShow s source _ text bom state.tree state'.tree hcommit']
          exact ⟨rfl, rfl, rfl, hstates.told, hstates.tree, hevolves'⟩

end Session

/-- A file of the two runs. -/
structure Handled.Foretells (t : FileTree) (h h' : Handled σ) : Prop where
  source : h'.source = h.source
  destination : h'.destination = h.destination
  result : h'.result = h.result.map FileStatus.forecast
  after : Session.Foretells t h.after h'.after

namespace Handled.Foretells

variable {t : FileTree} {h h' : Handled σ}

theorem reported (hh : Foretells t h h') : Session.Foretells t h.reported h'.reported := by
  have hafter := hh.after
  unfold Handled.reported
  rw [hh.result]
  cases h.result with
  | ok status => exact ⟨hafter.host, hafter.told, hafter.tree, hafter.evolves⟩
  | error d => exact ⟨hafter.host, congrArg (·.push d) hafter.told, hafter.tree, hafter.evolves⟩

theorem add (hh : Foretells t h h') (s : Session σ) (summary : Summary) :
    summary.forecast.add s.forShow.config h' = (summary.add s.config h).forecast := by
  have hrecord : h'.record s.forShow.config = (h.record s.config).forecast := by
    unfold Handled.record Handled.status
    rw [hh.result, hh.source, hh.destination]
    cases h.result <;> rfl
  unfold Summary.add
  rw [hrecord, ← Summary.forecast_push, hh.result]
  cases h.result <;> rfl

end Handled.Foretells

namespace Session

variable {s : Session σ} {fixed : Fixed} {started finished : Moment} {source : SourceFile}
  {sources : List SourceFile} {index : Nat} {state state' : SessionState σ} {t : FileTree}

theorem foretells_handle (hstates : Foretells t state state') {h : Handled σ}
    (hh : s.handle fixed started source state = h)
    (hreads : ∀ p ∈ s.lookupsOf fixed started h.source h.before, Undisturbed t h.before.tree p)
    (hcommit : ∀ d, h.result = .error d → d.fault.isOfCommit = false) :
    h.Foretells t (s.forShow.handle fixed started source state') := by
  subst hh
  have hbefore : Foretells t (state.noted .debug ("Preprocessing " ++ source.relative.text))
      (state'.noted .debug ("Preprocessing " ++ source.relative.text)) :=
    ⟨hstates.host, hstates.told, hstates.tree, hstates.evolves⟩
  obtain ⟨hdestination, hresult, hafter⟩ := foretells_processFile hbefore hreads hcommit
  exact ⟨rfl, hdestination, hresult, hafter⟩

/-! ## A whole run -/

/-- Files that each come to the same in both runs are summed up alike. -/
theorem foretells_processFiles (hpolicy : s.config.errorPolicy = .bestEffort)
    (hstates : Foretells t state state')
    (hfiles : ∀ h ∈ s.handled fixed started index sources state,
      (∀ p ∈ s.lookupsOf fixed started h.source h.before, Undisturbed t h.before.tree p) ∧
        ∀ d ∈ h.failure?, d.fault.isOfCommit = false) (summary : Summary) :
    ∃ summary' real forShow,
      (s.processFiles fixed started index sources summary).run state = (.ok summary', real) ∧
      (s.forShow.processFiles fixed started index sources summary.forecast).run state' =
        (.ok summary'.forecast, forShow) ∧
      Foretells t real forShow := by
  induction sources generalizing index state state' summary with
  | nil => exact ⟨summary, state, state', rfl, rfl, hstates⟩
  | cons source rest ih =>
      cases hstop : s.stops index state.host with
      | true =>
          have hstop' : s.forShow.stops index state'.host = true := hstates.host ▸ hstop
          rw [run_processFiles_of_stop hstop, run_processFiles_of_stop hstop']
          exact ⟨_, _, _, rfl, rfl, hstates.host, hstates.told, hstates.tree, hstates.evolves⟩
      | false =>
          have hstop' : s.forShow.stops index state'.host = false := hstates.host ▸ hstop
          have hpolicy' : s.forShow.config.errorPolicy = .bestEffort := hpolicy
          rw [handled_cons hpolicy hstop] at hfiles
          obtain ⟨⟨hreads, hcommit⟩, hrest⟩ := List.forall_mem_cons.mp hfiles
          have hfile := foretells_handle hstates rfl hreads fun d hd =>
            hcommit d (Handled.failure?_eq_some.mpr hd)
          rw [run_processFiles_cons hpolicy hstop, run_processFiles_cons hpolicy' hstop', hfile.add]
          exact ih hfile.reported hrest _

theorem prepare_forShow (hclear : s.config.clearDestination = false) (started : Moment) :
    s.forShow.prepare started = s.prepare started := by
  have hclear' : s.forShow.config.clearDestination = false := hclear
  unfold prepare
  rw [hclear, hclear']
  rfl

def lookedUpIn (s : Session σ) (started : Moment) (state : SessionState σ) (h : Handled σ) :
    List Path :=
  match ((s.prepare started).run state).1 with
  | .ok fixed => s.lookupsOf fixed started h.source h.before
  | .error _ => []

theorem status_ne_dryRun (hdry : s.config.dryRun = false) (fixed : Fixed) (started : Moment)
    (source : SourceFile) (state : SessionState σ) :
    (s.handle fixed started source state).status ≠ .dryRun := by
  unfold Handled.status handle
  dsimp only
  generalize state.noted .debug ("Preprocessing " ++ source.relative.text) = state
  rcases h : (Source.preprocess s.host state.tree s.config.options source.path).run
    (s.engineFor fixed started state) with ⟨d | outcome, e⟩
  · rw [run_processFile_of_error h]
    exact FileStatus.noConfusion
  · cases outcome with
    | excluded =>
        rw [run_processFile_of_excluded h]
        exact FileStatus.noConfusion
    | text text bom outname =>
        rw [run_processFile_of_output h]
        dsimp only
        unfold commitOutput
        cases s.config.targetEncoding.encode text (bom && s.config.targetEncoding == .utf8) with
        | error err => exact FileStatus.noConfusion
        | ok bytes =>
            have hcommit :=
              ne_dryRun_of_commit (show s.config.commitOptions.dryRun = false from hdry)
              state.tree s.disk (s.destinationOf source outname) bytes
            dsimp only
            rcases hr : state.tree.commit s.disk s.config.commitOptions
              (s.destinationOf source outname) bytes with ⟨fault | commit, t⟩ <;> rw [hr] at hcommit
            · exact FileStatus.noConfusion
            · cases commit with
              | written => exact FileStatus.noConfusion
              | unchanged => exact FileStatus.noConfusion
              | dryRun => exact absurd rfl hcommit

/-- Two sources in one directory. -/
def twoSources : FileTree where
  entries := [(["src"], .directory), (["a", "src"], .file [97]), (["b", "src"], .file [98])]

end Session

end Preprocessor
