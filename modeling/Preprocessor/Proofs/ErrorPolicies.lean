/-
The two policies for failures agree up to the first one.

Both policies handle a file in the same way; they differ in what follows a failure.  So the list of
files that a run with the best effort handles also tells what a run does that stops at a failure.
If no file of the list fails, the two runs are the same.  Else the run that stops ends where the
other ends if it is given no file after the failing one.

Both runs are stated about the same list of files, so no relation between the two runs is carried
along.  What a file tells to listeners and what it adds to the summary is read off the list.
-/
import Preprocessor.Proofs.Suppression
import Preprocessor.Proofs.WrittenFiles

namespace Preprocessor

variable {σ : Type}

/-! ## What a file reports -/

namespace Handled

variable {h : Handled σ} {d : Diagnostic}

def failure? (h : Handled σ) : Option Diagnostic :=
  match h.result with
  | .ok _ => none
  | .error d => some d

theorem failure?_eq_some : h.failure? = some d ↔ h.result = .error d := by
  rcases h with ⟨_, _, _ | _, _, _⟩ <;> simp [failure?]

theorem endsRun_bestEffort (h : Handled σ) : h.endsRun .bestEffort = false := by
  rcases h with ⟨_, _, _ | _, _, _⟩ <;> rfl

theorem endsRun_of_success (hsuccess : h.failure? = none) (policy : ErrorPolicy) :
    h.endsRun policy = false := by
  rcases h with ⟨_, _, _ | _, _, _⟩
  · cases hsuccess
  · rfl

theorem endsRun_of_failure (hd : h.failure? = some d) : h.endsRun .stopOnFirst = true := by
  rw [endsRun, failure?_eq_some.mp hd]
  rfl

end Handled

theorem Summary.errors_add (c : Config) (summary : Summary) (h : Handled σ) :
    (summary.add c h).errors.toList =
      summary.errors.toList ++ (h.failure?.map Diagnostic.text).toList := by
  rcases h with ⟨_, _, _ | _, _, _⟩ <;> simp [add, Handled.failure?, Summary.push]

namespace Session

variable {s : Session σ} {fixed : Fixed} {started : Moment} {source : SourceFile}
  {rest : List SourceFile} {index : Nat} {state : SessionState σ}

theorem forall_handled {P : Handled σ → Prop}
    (hP : ∀ source state, P (s.handle fixed started source state)) (index : Nat)
    (sources : List SourceFile) (state : SessionState σ) :
    ∀ h ∈ s.handled fixed started index sources state, P h :=
  processFiles_induction s fixed started (P := fun hs _ _ _ _ => ∀ h ∈ hs, P h)
    (fun _ _ => List.forall_mem_nil _) (fun _ _ => List.forall_mem_nil _)
    (fun source state _ _ _ => List.forall_mem_singleton.mpr (hP source state))
    (fun source state _ _ _ _ ih => List.forall_mem_cons.mpr ⟨hP source state, ih⟩)
    index sources state { started := started }

theorem sources_handled (s : Session σ) (fixed : Fixed) (started : Moment) (index : Nat)
    (sources : List SourceFile) (state : SessionState σ) :
    (s.handled fixed started index sources state).map Handled.source <+: sources := by
  induction sources generalizing index state with
  | nil => exact List.nil_prefix
  | cons source rest ih =>
      rw [handled]
      split
      · exact List.nil_prefix
      · dsimp only
        split
        · exact List.cons_prefix_cons.mpr ⟨rfl, List.nil_prefix⟩
        · exact List.cons_prefix_cons.mpr ⟨rfl, ih _ _⟩

/-- The summary of a run has the diagnostics of the files that failed, after those it had before. -/
theorem errors_of_processFiles (sources : List SourceFile) (state : SessionState σ)
    {summary summary' : Summary} {state' : SessionState σ}
    (h : (s.processFiles fixed started index sources summary).run state =
      (.ok summary', state')) :
    summary'.errors.toList =
      summary.errors.toList ++
        (s.handled fixed started index sources state).filterMap fun h =>
          h.failure?.map Diagnostic.text := by
  have hrun := processFiles_induction s fixed started
    (P := fun hs _ summary r _ => ∀ summary', r = .ok summary' → summary'.errors.toList =
      summary.errors.toList ++ hs.filterMap fun h => h.failure?.map Diagnostic.text)
    ?_ ?_ ?_ ?_ index sources state summary
  · exact hrun summary' (by rw [h])
  · intro state summary summary' hr
    cases hr
    simp
  · intro state summary summary' hr
    cases hr
    simp
  · intro source state summary d _ summary' hr
    cases hr
  · intro source state summary hs r state' ih summary' hr
    rw [ih summary' hr, Summary.errors_add, List.append_assoc, List.filterMap_cons]
    cases (s.handle fixed started source state).failure?.map Diagnostic.text <;> rfl

theorem told_processFile (s : Session σ) (fixed : Fixed) (started : Moment) (source : SourceFile)
    (state : SessionState σ) :
    ((s.processFile fixed started source).run state).2.told = state.told := by
  rcases h : (Source.preprocess s.host state.tree s.config.options source.path).run
    (s.engineFor fixed started state) with ⟨r, e⟩
  cases r with
  | error d => rw [run_processFile_of_error h]
  | ok outcome =>
      cases outcome with
      | excluded => rw [run_processFile_of_excluded h]
      | text text bom outname => rw [run_processFile_of_output h]

theorem told_reported (s : Session σ) (fixed : Fixed) (started : Moment) (source : SourceFile)
    (state : SessionState σ) :
    (s.handle fixed started source state).reported.told.toList =
      state.told.toList ++ (s.handle fixed started source state).failure?.toList := by
  have hafter : (s.handle fixed started source state).after.told = state.told :=
    s.told_processFile fixed started source _
  generalize s.handle fixed started source state = h at hafter ⊢
  rcases h with ⟨_, _, _ | _, _, _⟩ <;>
    simp_all [Handled.reported, Handled.failure?, SessionState.noted, SessionState.toldOf]

theorem status_handle (s : Session σ) (fixed : Fixed) (started : Moment) (source : SourceFile)
    (state : SessionState σ) :
    (s.handle fixed started source state).status = .failed ↔
      (s.handle fixed started source state).failure? ≠ none := by
  have heffect := s.effect_processFile fixed started source
    (state.noted .debug ("Preprocessing " ++ source.relative.text))
  unfold Handled.status Handled.failure? handle
  dsimp only
  generalize ((s.processFile fixed started source).run _).1.2 = r,
    ((s.processFile fixed started source).run _).2.tree = t at heffect ⊢
  cases heffect <;> simp

/-! ## The best effort, file by file -/

theorem handled_cons (hpolicy : s.config.errorPolicy = .bestEffort)
    (hgo : s.stops index state.host = false) :
    s.handled fixed started index (source :: rest) state =
      s.handle fixed started source state ::
        s.handled fixed started (index + 1) rest
          (s.handle fixed started source state).reported := by
  rw [handled, hgo, if_neg Bool.false_ne_true, hpolicy]
  exact if_neg (by rw [Handled.endsRun_bestEffort]; exact Bool.false_ne_true)

theorem run_processFiles_cons (hpolicy : s.config.errorPolicy = .bestEffort)
    (hgo : s.stops index state.host = false) (summary : Summary) :
    (s.processFiles fixed started index (source :: rest) summary).run state =
      (s.processFiles fixed started (index + 1) rest
        (summary.add s.config (s.handle fixed started source state))).run
          (s.handle fixed started source state).reported :=
  (run_processFiles_of_go hgo rfl rest summary).1 (by rw [hpolicy, Handled.endsRun_bestEffort])

/-! ## One list of files, two policies -/

def withPolicy (s : Session σ) (policy : ErrorPolicy) : Session σ :=
  { s with config := { s.config with errorPolicy := policy } }

section

variable (s fixed started)

theorem handled_bestEffort (hgo : s.stops index state.host = false) :
    (s.withPolicy .bestEffort).handled fixed started index (source :: rest) state =
      s.handle fixed started source state ::
        (s.withPolicy .bestEffort).handled fixed started (index + 1) rest
          (s.handle fixed started source state).reported :=
  handled_cons (s := s.withPolicy .bestEffort) rfl hgo

theorem exists_of_handled_cons {sources : List SourceFile} {h : Handled σ} {hs : List (Handled σ)}
    (hhandled : (s.withPolicy .bestEffort).handled fixed started index sources state = h :: hs) :
    ∃ source rest, sources = source :: rest ∧ s.stops index state.host = false ∧
      h = s.handle fixed started source state ∧
      (s.withPolicy .bestEffort).handled fixed started (index + 1) rest h.reported = hs := by
  cases sources with
  | nil => cases hhandled
  | cons source rest =>
      cases hgo : s.stops index state.host with
      | true =>
          have hstop : (s.withPolicy .bestEffort).stops index state.host = true := hgo
          rw [handled, if_pos hstop] at hhandled
          cases hhandled
      | false =>
          rw [handled_bestEffort s fixed started hgo] at hhandled
          obtain ⟨rfl, hrest⟩ := List.cons.inj hhandled
          exact ⟨source, rest, rfl, rfl, rfl, hrest⟩

/-- A file that does not end a run is followed by the others. -/
theorem run_processFiles_withPolicy {policy : ErrorPolicy}
    (hgo : s.stops index state.host = false)
    (hends : (s.handle fixed started source state).endsRun policy = false)
    (rest : List SourceFile) (summary : Summary) :
    ((s.withPolicy policy).processFiles fixed started index (source :: rest) summary).run state =
      ((s.withPolicy policy).processFiles fixed started (index + 1) rest
        (summary.add (s.withPolicy policy).config (s.handle fixed started source state))).run
        (s.handle fixed started source state).reported :=
  (run_processFiles_of_go (s := s.withPolicy policy) hgo rfl rest summary).1 hends

/-- A run with the best effort comes to a summary. -/
theorem exists_summary_of_bestEffort (index : Nat) (sources : List SourceFile)
    (state : SessionState σ) (summary : Summary) :
    ∃ summary' state', ((s.withPolicy .bestEffort).processFiles fixed started index sources
      summary).run state = (.ok summary', state') := by
  induction sources generalizing index state summary with
  | nil => exact ⟨summary, state, rfl⟩
  | cons source rest ih =>
      cases hgo : s.stops index state.host with
      | true => exact ⟨_, _, run_processFiles_of_stop (s := s.withPolicy .bestEffort) hgo⟩
      | false =>
          rw [run_processFiles_withPolicy s fixed started hgo (Handled.endsRun_bestEffort _)]
          exact ih _ _ _

/-- Where no file fails, the policies agree on everything. -/
theorem run_processFiles_of_success {sources : List SourceFile} {state : SessionState σ}
    (h : ∀ h ∈ (s.withPolicy .bestEffort).handled fixed started index sources state,
      h.failure? = none) (summary : Summary) :
    ((s.withPolicy .stopOnFirst).processFiles fixed started index sources summary).run state =
      ((s.withPolicy .bestEffort).processFiles fixed started index sources summary).run state := by
  induction sources generalizing index state summary with
  | nil => rfl
  | cons source rest ih =>
      cases hgo : s.stops index state.host with
      | true =>
          rw [run_processFiles_of_stop (s := s.withPolicy .stopOnFirst) hgo,
            run_processFiles_of_stop (s := s.withPolicy .bestEffort) hgo]
      | false =>
          rw [handled_bestEffort s fixed started hgo] at h
          obtain ⟨hsuccess, hrest⟩ := List.forall_mem_cons.mp h
          have hends (policy : ErrorPolicy) := Handled.endsRun_of_success hsuccess policy
          rw [run_processFiles_withPolicy s fixed started hgo (hends _),
            run_processFiles_withPolicy s fixed started hgo (hends _)]
          exact ih hrest _

/-- The run that stops at a failure ends where the other ends if that has no more files, and has
told the failure and nothing else. -/
theorem run_processFiles_of_failure {before after : List (Handled σ)} {h : Handled σ}
    {d : Diagnostic} (hbefore : ∀ h' ∈ before, h'.failure? = none) (hd : h.failure? = some d)
    {sources : List SourceFile} {state : SessionState σ}
    (hhandled : (s.withPolicy .bestEffort).handled fixed started index sources state =
      before ++ h :: after) (summary : Summary) :
    ((s.withPolicy .stopOnFirst).processFiles fixed started index sources summary).run state =
        (.error d, h.reported) ∧
      (∃ summary', ((s.withPolicy .bestEffort).processFiles fixed started index
        (sources.take (before.length + 1)) summary).run state = (.ok summary', h.reported)) ∧
      h.reported.told.toList = state.told.toList ++ [d] := by
  induction before generalizing index sources state summary with
  | nil =>
      obtain ⟨source, rest, rfl, hgo, rfl, -⟩ := exists_of_handled_cons s fixed started hhandled
      refine ⟨?_, ⟨_, run_processFiles_withPolicy s fixed started hgo
        (Handled.endsRun_bestEffort _) [] summary⟩, ?_⟩
      · obtain ⟨d', hd', hrun⟩ :=
          (run_processFiles_of_go (s := s.withPolicy .stopOnFirst) hgo rfl rest summary).2
            (Handled.endsRun_of_failure hd)
        cases hd'.symm.trans (Handled.failure?_eq_some.mp hd)
        exact hrun
      · rw [told_reported, hd]
        rfl
  | cons first before ih =>
      obtain ⟨source, rest, rfl, hgo, rfl, hrest⟩ := exists_of_handled_cons s fixed started hhandled
      obtain ⟨hsuccess, hbefore⟩ := List.forall_mem_cons.mp hbefore
      have hends := Handled.endsRun_of_success hsuccess
      obtain ⟨hstop, hbest, htold⟩ := ih hbefore hrest
        (summary.add s.config (s.handle fixed started source state))
      refine ⟨?_, ?_, ?_⟩
      · rw [run_processFiles_withPolicy s fixed started hgo (hends _)]
        exact hstop
      · rw [List.length_cons, List.take_succ_cons,
          run_processFiles_withPolicy s fixed started hgo (hends _)]
        exact hbest
      · rw [htold, told_reported, hsuccess]
        simp

end

/-! ## Whole runs -/

theorem quiet_clearDestination (c : Config) :
    Quiet SessionState.told (clearDestination c : SessionM σ Unit) := by
  refine Quiet.get.bind fun state => ?_
  dsimp only
  split
  · exact .pure _
  · split
    · exact quiet_ofFault _
    · refine Quiet.bind (.modify fun _ => rfl) fun _ => ?_
      split
      · exact quiet_ofFault _
      · exact .modify fun _ => rfl

theorem quiet_prepare_told (s : Session σ) (started : Moment) :
    Quiet SessionState.told (s.prepare started) := by
  have hrest : Quiet SessionState.told (do
      let properties ← SessionM.ofFault s.config.propertyValues
      let properties := properties.override s.properties
      let globals ← s.loadGlobals properties started
      return (⟨globals, properties⟩ : Fixed)) :=
    (quiet_ofFault _).bind fun _ =>
      (quiet_loadGlobals (fun _ _ _ => rfl) s _ started).bind fun _ => .pure _
  unfold prepare
  dsimp only
  split
  · exact (quiet_clearDestination s.config).bind fun _ => hrest
  · exact hrest

/-- The files before and after the first one that is recorded as failed. -/
theorem exists_first_failure {sources : List SourceFile} {k : Nat}
    (hk : ((s.handled fixed started index sources state).map (Handled.record s.config)).findIdx?
      (·.status == .failed) = some k) :
    ∃ before h after d, s.handled fixed started index sources state = before ++ h :: after ∧
      before.length = k ∧ (∀ h' ∈ before, h'.failure? = none) ∧ h.failure? = some d := by
  have hstatus := forall_handled (P := fun h => h.status = .failed ↔ h.failure? ≠ none)
    (s.status_handle fixed started) index sources state
  generalize s.handled fixed started index sources state = hs at hk hstatus ⊢
  obtain ⟨hlt, hfailed, hbefore⟩ := List.findIdx?_eq_some_iff_getElem.mp hk
  rw [List.length_map] at hlt
  simp only [List.getElem_map] at hfailed hbefore
  have hsome := (hstatus _ (List.getElem_mem hlt)).mp (beq_iff_eq.mp hfailed)
  obtain ⟨d, hd⟩ := Option.ne_none_iff_exists'.mp hsome
  refine ⟨hs.take k, hs[k], hs.drop (k + 1), d, ?_, List.length_take_of_le hlt.le, ?_, hd⟩
  · rw [← List.drop_eq_getElem_cons, List.take_append_drop]
  · intro h' hmem
    obtain ⟨j, hj, rfl⟩ := List.mem_take_iff_getElem.mp hmem
    have hjk : j < k := lt_of_lt_of_le hj (min_le_left _ _)
    by_contra hne
    refine hbefore j hjk (beq_iff_eq.mpr ((hstatus _ (List.getElem_mem _)).mpr hne))

/-- The two policies for failures agree up to the first failure.  Where the definition files can be
read, a run with the best effort comes to a summary that records an initial part of the sources.  If
none of them failed, a run that stops at a failure is the same run: it has the same summary and
leaves the same state.  If the first to fail is the source with index `k`, that run ends with a
diagnostic whose text is the first of the errors of the summary.  It has told this diagnostic to
listeners and no other, and it leaves the files and the host exactly as the best effort leaves them
on the first `k + 1` sources. -/
theorem policies_agree (s : Session σ) (started finished : Moment) (sources : List SourceFile)
    (state state₁ : SessionState σ) (fixed : Fixed)
    (hprepare : (s.prepare started).run state = (.ok fixed, state₁)) :
    let best := fun files => ((s.withPolicy .bestEffort).run started finished files).run state
    let stopping := ((s.withPolicy .stopOnFirst).run started finished sources).run state
    ∃ summary, (best sources).1 = .ok summary ∧
      summary.records.toList.map FileRecord.source <+: sources.map SourceFile.path ∧
      (summary.records.toList.findIdx? (·.status == .failed) = none →
        stopping.1 = .ok summary ∧ stopping.2 = (best sources).2) ∧
      ∀ k, summary.records.toList.findIdx? (·.status == .failed) = some k →
        ∃ d, stopping.1 = .error d ∧ summary.errors[0]? = some d.text ∧
          stopping.2.told = state.told.push d ∧
          stopping.2.tree = (best (sources.take (k + 1))).2.tree ∧
          stopping.2.host = (best (sources.take (k + 1))).2.host := by
  intro best stopping
  have hprepare' (policy : ErrorPolicy) :
      ((s.withPolicy policy).prepare started).run state = (.ok fixed, state₁) := hprepare
  have htold : state₁.told = state.told := s.quiet_prepare_told started state _ state₁ hprepare
  obtain ⟨summary, state₂, hfiles⟩ := exists_summary_of_bestEffort s fixed started 0 sources
    (loaded fixed state₁) { started := started }
  have hrecords := records_of_processFiles sources _ hfiles
  have herrors := errors_of_processFiles sources _ hfiles
  have hbest : best sources = _ := run_of_files (hprepare' _) hfiles
  refine ⟨{ summary with finished := some finished }, congrArg Prod.fst hbest, ?_, ?_, ?_⟩
  · have hprefix := (sources_handled (s.withPolicy .bestEffort) fixed started 0 sources
      (loaded fixed state₁)).map SourceFile.path
    rw [List.map_map] at hprefix
    rw [hrecords, Array.toList_empty, List.nil_append, List.map_map]
    exact hprefix
  · intro hnone
    have hsuccess : ∀ h ∈ (s.withPolicy .bestEffort).handled fixed started 0 sources
        (loaded fixed state₁), h.failure? = none := by
      intro h hmem
      have hrecord : h.record (s.withPolicy .bestEffort).config ∈ summary.records.toList := by
        rw [hrecords]
        exact List.mem_append_right _ (List.mem_map_of_mem hmem)
      have hstatus := forall_handled (P := fun h => h.status = .failed ↔ h.failure? ≠ none)
        ((s.withPolicy .bestEffort).status_handle fixed started) 0 sources _ h hmem
      by_contra hfailed
      have hnot := List.findIdx?_eq_none_iff.mp hnone _ hrecord
      rw [beq_eq_false_iff_ne] at hnot
      exact hnot (hstatus.mpr hfailed)
    have hstopping : stopping = _ := run_of_files (hprepare' _)
      ((run_processFiles_of_success s fixed started hsuccess _).trans hfiles)
    rw [hbest, hstopping]
    exact ⟨rfl, rfl⟩
  · intro k hk
    dsimp only at hk
    rw [hrecords, Array.toList_empty, List.nil_append] at hk
    obtain ⟨before, h, after, d, hhandled, rfl, hbefore, hd⟩ := exists_first_failure hk
    obtain ⟨hstop, ⟨summary', hpart⟩, hreported⟩ := run_processFiles_of_failure s fixed started
      hbefore hd hhandled { started := started }
    have hstopping : stopping = _ := run_of_files_error (hprepare' _) hstop
    have hpart' : best (sources.take (before.length + 1)) = _ := run_of_files (hprepare' _) hpart
    rw [hstopping, hpart']
    refine ⟨d, rfl, ?_, ?_, rfl, rfl⟩
    · have hnone : before.filterMap (fun h => h.failure?.map Diagnostic.text) = [] :=
        List.filterMap_eq_nil_iff.mpr fun h' hmem => by rw [hbefore h' hmem]; rfl
      rw [hhandled, List.filterMap_append, hnone, List.filterMap_cons, hd] at herrors
      rw [← Array.getElem?_toList]
      dsimp only
      rw [herrors]
      rfl
    · apply Array.toList_inj.mp
      rw [hreported, Array.toList_push, ← htold]
      rfl

/-- Three sources that call the host, of which the second and the third fail. -/
def callingSources : FileTree where
  entries :=
    let file (text : String) := Entry.file (text.toList.map fun c => .ofNat c.toNat)
    [(["a"], file "//#if f()
A
//#endif
"), (["b"], file "/*$f()$*/
//#endif
"),
      (["c"], file "//#if f()
")]

/-- The run that stops leaves the third source alone, so the host is called twice. -/
theorem policies_agree_callingSources :
    let s : Session Nat := { config := { destination := ⟨"out"⟩ }, host := countingHost }
    let sources : List SourceFile := ["a", "b", "c"].map fun name => ⟨⟨name⟩, ⟨name⟩⟩
    let state : SessionState Nat := { tree := callingSources, host := 0 }
    let stopping := ((s.withPolicy .stopOnFirst).run ⟨0, 0⟩ ⟨1, 0⟩ sources).run state
    let best := ((s.withPolicy .bestEffort).run ⟨0, 0⟩ ⟨1, 0⟩ sources).run state
    ((s.prepare ⟨0, 0⟩).run state).1.toOption.isSome = true ∧
      best.1.toOption.map (fun summary => summary.records.toList.map FileRecord.status) =
        some [.written, .failed, .failed] ∧
      best.2.host = 3 ∧ stopping.2.host = 2 ∧
      ∃ d, stopping.1 = .error d ∧ stopping.2.told = #[d] := by
  intro s sources state stopping best
  have hprepared : ((s.prepare ⟨0, 0⟩).run state).1.toOption.isSome = true := by decide +kernel
  have hstatuses : best.1.toOption.map (fun summary => summary.records.toList.map
      FileRecord.status) = some [.written, .failed, .failed] := by decide +kernel
  have hbest : best.2.host = 3 := by decide +kernel
  have hpart : (((s.withPolicy .bestEffort).run ⟨0, 0⟩ ⟨1, 0⟩ (sources.take 2)).run state).2.host
      = 2 := by decide +kernel
  obtain ⟨fixed, hfixed⟩ := Option.isSome_iff_exists.mp hprepared
  obtain ⟨summary, hsummary, -, -, hfirst⟩ := policies_agree s ⟨0, 0⟩ ⟨1, 0⟩ sources state _ fixed
    (Prod.ext (eq_ok_of_toOption hfixed) rfl)
  have hindex : summary.records.toList.findIdx? (·.status == .failed) = some 1 := by
    have hmap : summary.records.toList.map FileRecord.status = [.written, .failed, .failed] := by
      rw [show best.1 = .ok summary from hsummary] at hstatuses
      exact Option.some.inj hstatuses
    have hlist := congrArg (List.findIdx? (· == FileStatus.failed)) hmap
    rwa [List.findIdx?_map] at hlist
  obtain ⟨d, herror, -, htold, -, hhost⟩ := hfirst 1 hindex
  exact ⟨hprepared, hstatuses, hbest, hhost.trans hpart, d, herror, htold⟩

end Session

end Preprocessor
