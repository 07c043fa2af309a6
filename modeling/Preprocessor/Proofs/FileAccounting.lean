/-
The summary of a run accounts for every file.

A summary counts the records that it holds, and each file that is handled adds one record under a
final status.  A run that comes to a summary has handled all of its sources or was stopped before
one of them.  No file of such a run ended it, so where failures end a run none of its files failed.

Who asks for the end of a run is left open: it may be the host, from inside a call, or anyone else
who raises the flag before some file.  In both cases the files that were not begun have no record,
and the summary says that the run was stopped.
-/
import Preprocessor.Proofs.ErrorPolicies

namespace Preprocessor

variable {σ : Type}

/-! ## Counts and records -/

def FileRecord.file (r : FileRecord) : SourceFile :=
  ⟨r.source, r.relative⟩

namespace Summary

def tally (summary : Summary) : Counts where
  processed := summary.records.size
  written := (summary.recordsWith .written).length
  unchanged := (summary.recordsWith .unchanged).length
  dryRun := (summary.recordsWith .dryRun).length
  excluded := (summary.recordsWith .excluded).length
  failed := (summary.recordsWith .failed).length

theorem recordsWith_push (summary : Summary) (r : FileRecord) (status : FileStatus) :
    (summary.push r).recordsWith status =
      summary.recordsWith status ++ if r.status = status then [r] else [] := by
  simp [recordsWith, push, List.filter_cons]

theorem tally_push {r : FileRecord} (summary : Summary) (hsettled : r.status ≠ .pending) :
    (summary.push r).tally = summary.tally.add r.status := by
  have hsize : (summary.push r).records.size = summary.records.size + 1 := Array.size_push r
  unfold tally
  rw [hsize]
  cases hstatus : r.status with
  | pending => exact absurd hstatus hsettled
  | written | unchanged | dryRun | excluded | failed =>
      simp [recordsWith_push, hstatus, Counts.add]

/-- Without pending records every record has one of the statuses that are counted. -/
theorem processed_tally (summary : Summary)
    (hsettled : ∀ r ∈ summary.records.toList, r.status ≠ .pending) :
    summary.tally.processed = summary.tally.written + summary.tally.unchanged +
      summary.tally.dryRun + summary.tally.excluded + summary.tally.failed := by
  unfold tally recordsWith
  rw [← Array.length_toList]
  generalize summary.records.toList = records at hsettled ⊢
  dsimp only
  induction records with
  | nil => rfl
  | cons r records ih =>
      obtain ⟨hr, hrest⟩ := List.forall_mem_cons.mp hsettled
      have hsum := ih hrest
      cases hstatus : r.status with
      | pending => exact absurd hstatus hr
      | written | unchanged | dryRun | excluded | failed =>
          simp [hstatus] at hsum ⊢
          omega

/-- A summary with one error for each file that failed is a success exactly if none did. -/
theorem isSuccess_iff (summary : Summary)
    (hfailed : summary.counts.failed = (summary.recordsWith .failed).length)
    (herrors : summary.errors.size = (summary.recordsWith .failed).length) :
    summary.isSuccess = true ↔ ∀ r ∈ summary.records.toList, r.status ≠ .failed := by
  have hnone : (summary.recordsWith .failed).length = 0 ↔
      ∀ r ∈ summary.records.toList, r.status ≠ .failed := by
    rw [List.length_eq_zero_iff, recordsWith, List.filter_eq_nil_iff]
    simp
  have hempty : summary.errors.isEmpty = true ↔ (summary.recordsWith .failed).length = 0 := by
    rw [← herrors, Array.isEmpty_iff_size_eq_zero]
  rw [isSuccess, Bool.and_eq_true, beq_iff_eq, hfailed, hempty, and_self, hnone]

end Summary

namespace Session

variable {s : Session σ} {fixed : Fixed} {started finished : Moment} {source : SourceFile}
  {sources : List SourceFile} {index : Nat} {summary summary' : Summary}
  {state state' : SessionState σ}

/-! ## The files of a run -/

theorem status_handle_ne_pending (s : Session σ) (fixed : Fixed) (started : Moment)
    (source : SourceFile) (state : SessionState σ) :
    (s.handle fixed started source state).status ≠ .pending := by
  have heffect := s.effect_processFile fixed started source
    (state.noted .debug ("Preprocessing " ++ source.relative.text))
  unfold Handled.status handle
  dsimp only
  generalize ((s.processFile fixed started source).run _).1.2 = r,
    ((s.processFile fixed started source).run _).2.tree = t at heffect ⊢
  cases heffect <;> exact FileStatus.noConfusion

theorem counts_add (c : Config) {h : Handled σ} (hsettled : h.status ≠ .pending)
    (hcounts : summary.counts = summary.tally) :
    (summary.add c h).counts = (summary.add c h).tally := by
  have hpush : (summary.push (h.record c)).counts = (summary.push (h.record c)).tally := by
    rw [Summary.tally_push summary hsettled, ← hcounts]
    rfl
  unfold Summary.add
  split <;> exact hpush

/-- A summary whose counts are those of its records keeps them so as files are handled. -/
theorem counts_of_processFiles (hcounts : summary.counts = summary.tally)
    (h : (s.processFiles fixed started index sources summary).run state =
      (.ok summary', state')) :
    summary'.counts = summary'.tally := by
  have hrun := processFiles_induction s fixed started
    (P := fun _ _ summary r _ => summary.counts = summary.tally →
      ∀ summary', r = .ok summary' → summary'.counts = summary'.tally)
    ?_ ?_ ?_ ?_ index sources state summary
  · exact hrun hcounts summary' (by rw [h])
  · intro state summary hcounts summary' hr
    cases hr
    exact hcounts
  · intro state summary hcounts summary' hr
    cases hr
    exact hcounts
  · intro source state summary d _ hcounts summary' hr
    cases hr
  · intro source state summary hs r state' ih hcounts
    exact ih (counts_add s.config (s.status_handle_ne_pending fixed started source state) hcounts)

theorem cancelled_add (c : Config) (summary : Summary) (h : Handled σ) :
    (summary.add c h).cancelled = summary.cancelled := by
  unfold Summary.add
  split <;> rfl

/-- No file of a run that comes to a summary ended it, and the run has handled all of its sources
or was stopped before one of them. -/
theorem completed_of_processFiles
    (h : (s.processFiles fixed started index sources summary).run state =
      (.ok summary', state')) :
    (∀ h ∈ s.handled fixed started index sources state, h.endsRun s.config.errorPolicy = false) ∧
      (summary'.cancelled = summary.cancelled ∧
          (s.handled fixed started index sources state).map Handled.source = sources ∨
        summary'.cancelled = true ∧
          (s.handled fixed started index sources state).length < sources.length) := by
  induction sources generalizing index state summary with
  | nil =>
      cases h
      exact ⟨List.forall_mem_nil _, .inl ⟨rfl, rfl⟩⟩
  | cons source rest ih =>
      rw [handled]
      cases hgo : s.stops index state.host with
      | true =>
          rw [run_processFiles_of_stop hgo] at h
          cases h
          rw [if_pos rfl]
          exact ⟨List.forall_mem_nil _, .inr ⟨rfl, Nat.succ_pos _⟩⟩
      | false =>
          obtain ⟨hrest, hend⟩ := run_processFiles_of_go hgo rfl rest summary
          rw [if_neg Bool.false_ne_true]
          dsimp only
          cases hends : (s.handle fixed started source state).endsRun s.config.errorPolicy with
          | true =>
              obtain ⟨d, -, hrun⟩ := hend hends
              rw [hrun] at h
              cases h
          | false =>
              rw [hrest hends] at h
              obtain ⟨hall, hcancelled⟩ := ih h
              rw [if_neg Bool.false_ne_true]
              refine ⟨List.forall_mem_cons.mpr ⟨hends, hall⟩, ?_⟩
              rw [cancelled_add] at hcancelled
              refine hcancelled.imp (fun hwhole => ⟨hwhole.1, ?_⟩) fun hpart => ⟨hpart.1, ?_⟩
              · rw [List.map_cons, hwhole.2]
                rfl
              · exact Nat.succ_lt_succ hpart.2

/-- The summary of a run is that of its files, with the moment at which the run ended. -/
theorem exists_files_of_run
    (hrun : (s.run started finished sources).run state = (.ok summary, state')) :
    ∃ fixed state₁ files state₂, summary = { files with finished := some finished } ∧
      s.handledIn started sources state = s.handled fixed started 0 sources state₁ ∧
      (s.processFiles fixed started 0 sources { started := started }).run state₁ =
        (.ok files, state₂) := by
  rcases hprepare : (s.prepare started).run state with ⟨d | fixed, state₁⟩
  · rw [run_of_prepare_error hprepare] at hrun
    cases hrun
  rcases hfiles : (s.processFiles fixed started 0 sources { started := started }).run
    (loaded fixed state₁) with ⟨d | files, state₂⟩
  · rw [run_of_files_error hprepare hfiles] at hrun
    cases hrun
  · rw [run_of_files hprepare hfiles] at hrun
    cases hrun
    refine ⟨fixed, loaded fixed state₁, files, state₂, rfl, ?_, hfiles⟩
    rw [handledIn, hprepare]

/-- The diagnostics of the files that failed are those of the files recorded as failed, one for
each. -/
theorem failures_of_failed {hs : List (Handled σ)}
    (hstatus : ∀ h ∈ hs, h.status = .failed ↔ h.failure? ≠ none) :
    List.Forall₂ (fun h text => ∃ d, h.result = .error d ∧ text = d.text)
      (hs.filter fun h => h.status == .failed)
      (hs.filterMap fun h => h.failure?.map Diagnostic.text) := by
  induction hs with
  | nil => exact .nil
  | cons h hs ih =>
      obtain ⟨hh, hrest⟩ := List.forall_mem_cons.mp hstatus
      cases hfailure : h.failure? with
      | none =>
          have hnot : ¬(h.status == .failed) = true := by simp [hh, hfailure]
          rw [List.filter_cons, if_neg hnot, List.filterMap_cons, hfailure]
          exact ih hrest
      | some d =>
          have hfailed : (h.status == .failed) = true := by simp [hh, hfailure]
          rw [List.filter_cons, if_pos hfailed, List.filterMap_cons, hfailure]
          exact .cons ⟨d, Handled.failure?_eq_some.mp hfailure, rfl⟩ (ih hrest)

/-- The summary of a run accounts for every file.  Its records are those of the files that were
handled, in order.  None is pending, and the counts are the numbers of records of each status and of
all records, the latter the sum of the former.  The records are about an initial part of the
sources, which is all of them exactly if the run was not cancelled.  The errors are the texts of the
diagnostics of the files recorded as failed, one for each and in their order.  The run is a success
exactly if no file is recorded as failed, and where a failure ends the run none is. -/
theorem summary_accounts (s : Session σ) (started finished : Moment) (sources : List SourceFile)
    (state state' : SessionState σ) (summary : Summary)
    (hrun : (s.run started finished sources).run state = (.ok summary, state')) :
    let hs := s.handledIn started sources state
    summary.records.toList = hs.map (Handled.record s.config) ∧
      (∀ r ∈ summary.records.toList, r.status ≠ .pending) ∧
      summary.counts.written = (summary.recordsWith .written).length ∧
      summary.counts.unchanged = (summary.recordsWith .unchanged).length ∧
      summary.counts.dryRun = (summary.recordsWith .dryRun).length ∧
      summary.counts.excluded = (summary.recordsWith .excluded).length ∧
      summary.counts.failed = (summary.recordsWith .failed).length ∧
      summary.counts.processed = summary.records.size ∧
      summary.counts.processed = summary.counts.written + summary.counts.unchanged +
        summary.counts.dryRun + summary.counts.excluded + summary.counts.failed ∧
      summary.records.toList.map FileRecord.file <+: sources ∧
      (summary.cancelled = false ↔ summary.records.toList.map FileRecord.file = sources) ∧
      List.Forall₂ (fun h text => ∃ d, h.result = .error d ∧ text = d.text)
        (hs.filter fun h => h.status == .failed) summary.errors.toList ∧
      (summary.isSuccess = true ↔ ∀ r ∈ summary.records.toList, r.status ≠ .failed) ∧
      (s.config.errorPolicy = .stopOnFirst →
        ∀ r ∈ summary.records.toList, r.status ≠ .failed) := by
  intro hs
  obtain ⟨fixed, state₁, files, state₂, rfl, hhandled, hfiles⟩ := exists_files_of_run hrun
  have hhs : hs = s.handled fixed started 0 sources state₁ := hhandled
  clear_value hs
  subst hhs
  obtain ⟨hends, hcompleted⟩ := completed_of_processFiles hfiles
  have hstatus := forall_handled (P := fun h => h.status = .failed ↔ h.failure? ≠ none)
    (s.status_handle fixed started) 0 sources state₁
  have hpending := forall_handled (P := fun h => h.status ≠ .pending)
    (s.status_handle_ne_pending fixed started) 0 sources state₁
  have hsources := s.sources_handled fixed started 0 sources state₁
  have hcounts : files.counts = files.tally := counts_of_processFiles rfl hfiles
  have hrecords := records_of_processFiles sources state₁ hfiles
  have herrors := errors_of_processFiles sources state₁ hfiles
  rw [Array.toList_empty, List.nil_append] at hrecords herrors
  generalize s.handled fixed started 0 sources state₁ = hs at *
  have hfile : files.records.toList.map FileRecord.file = hs.map Handled.source := by
    rw [hrecords, List.map_map]
    rfl
  have hsettled : ∀ r ∈ files.records.toList, r.status ≠ .pending := by
    rw [hrecords]
    exact List.forall_mem_map.mpr hpending
  have hfailures := failures_of_failed hstatus
  rw [← herrors] at hfailures
  have hfailed : files.recordsWith .failed =
      (hs.filter fun h => h.status == .failed).map (Handled.record s.config) := by
    rw [Summary.recordsWith, hrecords, List.filter_map]
    rfl
  have hlength : files.errors.size = (files.recordsWith .failed).length := by
    rw [hfailed, List.length_map, hfailures.length_eq, Array.length_toList]
  refine ⟨hrecords, hsettled, congrArg Counts.written hcounts, congrArg Counts.unchanged hcounts,
    congrArg Counts.dryRun hcounts, congrArg Counts.excluded hcounts,
    congrArg Counts.failed hcounts, congrArg Counts.processed hcounts, ?_, ?_, ?_, hfailures, ?_,
    ?_⟩
  · exact hcounts ▸ files.processed_tally hsettled
  · exact hfile ▸ hsources
  · dsimp only
    rw [hfile]
    rcases hcompleted with ⟨hgoes, hwhole⟩ | ⟨hstopped, hpart⟩
    · exact ⟨fun _ => hwhole, fun _ => hgoes⟩
    · rw [hstopped]
      refine ⟨fun h => absurd h.symm Bool.false_ne_true, fun hwhole => ?_⟩
      rw [← hwhole, List.length_map] at hpart
      exact absurd hpart (Nat.lt_irrefl _)
  · exact files.isSuccess_iff (congrArg Counts.failed hcounts) hlength
  · intro hpolicy r hr hstatusr
    rw [hrecords] at hr
    obtain ⟨h, hh, rfl⟩ := List.mem_map.mp hr
    obtain ⟨d, hd⟩ := Option.ne_none_iff_exists'.mp ((hstatus h hh).mp hstatusr)
    have hgoes := hends h hh
    rw [hpolicy, Handled.endsRun_of_failure hd] at hgoes
    exact absurd hgoes.symm Bool.false_ne_true

/-- A run over three sources, of which the first is written and the second fails.  The host does not
ask to stop, but the flag is found raised before the third source, which is not handled. -/
theorem summary_accounts_callingSources :
    let s : Session Nat :=
      { config := { destination := ⟨"out"⟩, errorPolicy := .bestEffort }
        host := countingHost, raised := fun index => index == 2 }
    let sources : List SourceFile := ["a", "b", "c"].map fun name => ⟨⟨name⟩, ⟨name⟩⟩
    let run := (s.run ⟨0, 0⟩ ⟨1, 0⟩ sources).run { tree := callingSources, host := 0 }
    ∃ summary, run.1 = .ok summary ∧
      summary.records.toList.map FileRecord.status = [.written, .failed] ∧
      summary.counts.written = 1 ∧ summary.counts.failed = 1 ∧ summary.counts.processed = 2 ∧
      summary.cancelled = true ∧ summary.errors.size = 1 ∧ summary.isSuccess = false := by
  intro s sources run
  have hstatuses : run.1.toOption.map (fun summary => summary.records.toList.map
      FileRecord.status) = some [.written, .failed] := by decide +kernel
  obtain ⟨summary, hsummary, hrecorded⟩ := Option.map_eq_some_iff.mp hstatuses
  have hrun : run = (.ok summary, run.2) := Prod.ext (eq_ok_of_toOption hsummary) rfl
  obtain ⟨hrecords, -, hwritten, -, -, -, hfailed, hprocessed, -, -, hwhole, herrors, hsuccess,
    -⟩ := summary_accounts s ⟨0, 0⟩ ⟨1, 0⟩ sources _ _ summary hrun
  have hlength : summary.records.size = 2 := by
    rw [← Array.length_toList, ← List.length_map FileRecord.status, hrecorded]
    rfl
  have hcount (status : FileStatus) : (summary.recordsWith status).length =
      [FileStatus.written, .failed].count status := by
    rw [← hrecorded, List.count, List.countP_map, List.countP_eq_length_filter]
    rfl
  have hfailures : summary.errors.size = (summary.recordsWith .failed).length := by
    rw [← Array.length_toList, ← herrors.length_eq, Summary.recordsWith, hrecords, List.filter_map,
      List.length_map]
    rfl
  refine ⟨summary, congrArg Prod.fst hrun, hrecorded, hwritten.trans (hcount _),
    hfailed.trans (hcount _), hprocessed.trans hlength, ?_, hfailures.trans (hcount _), ?_⟩
  · rw [← Bool.not_eq_false, hwhole]
    intro hall
    have hthree := congrArg List.length hall
    rw [List.length_map, Array.length_toList, hlength] at hthree
    cases hthree
  · rw [← Bool.not_eq_true, hsuccess]
    intro hnone
    have hmem : FileStatus.failed ∈ summary.records.toList.map FileRecord.status := by
      rw [hrecorded]
      decide
    obtain ⟨r, hr, hstatus⟩ := List.mem_map.mp hmem
    exact hnone r hr hstatus

end Session

end Preprocessor
