/-
Files do not influence each other.

A file that is handled after others starts with the fixed variables, as if it were the only one, and
so only the tree can tell it of them.  If it looks up no path to which the others have opened a way,
and its commit looks at no place that they change, then it comes to what it comes to by itself.
Directories may be shared: it is all the same which file makes them.  A run on several files is then
the same, in whatever order they are given.

Two more things could carry something from one file to the next, and are kept out.  A host has a
state, so it has to decline everything; and if anyone may stop the run, which files are handled
depends on their order.  What is left is the tree.  The condition on commits is about places and
not about destinations, since a destination that goes through a link or through a directory made by
another file may end at a place that its path does not show.
-/
import Mathlib.Data.List.Pairwise
import Preprocessor.Proofs.DryRun
import Preprocessor.Proofs.JoinedOutputs
import Preprocessor.Proofs.RunComparison

namespace Preprocessor

variable {σ : Type}

open FileTree

theorem Source.host_of_declining {t : FileTree} {options : Options} {root : Path} {e e' : Engine σ}
    {r : Except Diagnostic Outcome}
    (h : (preprocess (.declining σ) t options root).run e = (r, e')) : e'.host = e.host := by
  -- the run is compared with itself, on hosts that have the state with which it starts
  let k : Comparison σ σ :=
    { first := .declining σ
      second := .declining σ
      related := fun host host' => host = e.host ∧ host' = e.host
      simulates :=
        { takesAction := fun _ _ => rfl
          knowsFunction := fun _ _ _ => rfl
          act := fun hs _ _ => ⟨rfl, hs⟩
          call := fun hs _ _ _ => ⟨rfl, hs⟩ }
      policy := e.env.unknownAsFalse
      policy' := e.env.unknownAsFalse
      lenient := id
      blamed := fun _ _ => True
      blames := fun _ _ _ _ _ _ _ _ _ => True.intro }
  have hstart : k.Engines e e := ⟨⟨rfl, rfl, rfl⟩, ⟨rfl, rfl⟩, rfl, rfl⟩
  obtain ⟨e₁, -, hend⟩ := (k.tracks_preprocess t options root).follows hstart h
    fun d _ hexcused => hexcused.1 rfl
  exact hend.host.1

/-! ## One file among others -/

namespace Handled

variable {h h' : Handled σ} {c : Config} {u : FileTree}

/-- Whether a file came to its commit. -/
def isCommitted (h : Handled σ) : Bool :=
  match h.result with
  | .ok .excluded => false
  | .ok _ => true
  | .error d => d.fault.isOfCommit

/-- The places that the commit of a file looked at. -/
def touched (h : Handled σ) : List Location :=
  if h.isCommitted then h.before.tree.commitPlaces h.destination else []

/-- What a tree may hold for a file to come to the same in it: what the file found where its commit
looked, and directories that the file itself made. -/
def Admits (c : Config) (h : Handled σ) (u : FileTree) : Prop :=
  h.isCommitted = true → h.before.tree.Admits c.commitOptions h.destination h.after.tree u

instance (c : Config) (h : Handled σ) (u : FileTree) : Decidable (h.Admits c u) :=
  inferInstanceAs (Decidable (_ → _))

theorem Admits.entry (hu : h.Admits c u) {loc : Location} (hloc : loc ∈ h.touched) :
    u.entry? loc = h.before.tree.entry? loc ∨
      SharesDirectory h.before.tree h.after.tree u loc := by
  unfold touched at hloc
  split at hloc
  · rename_i hcommitted
    exact (hu hcommitted loc hloc).imp_right fun hshared => hshared.2.2
  · cases hloc

/-- A file that changes nothing leaves every tree that admits it. -/
theorem Admits.adopts (hu : h.Admits c u) (htree : h.after.tree = h.before.tree) :
    Adopts h.after.tree u u h.touched := by
  refine .refl fun loc hloc => ?_
  rcases hu.entry hloc with hsame | ⟨hnone, hmade, -⟩
  · rw [hsame, htree]
  · rw [htree, hnone] at hmade
    cases hmade

theorem host_reported (h : Handled σ) : h.reported.host = h.after.host := by
  unfold reported
  split <;> rfl

/-- A file that came to the same as another. -/
structure Echoes (h h' : Handled σ) : Prop where
  source : h'.source = h.source
  destination : h'.destination = h.destination
  result : h'.result = h.result

theorem Echoes.add (hh : h.Echoes h') (c : Config) (summary : Summary) :
    summary.add c h' = summary.add c h := by
  unfold Summary.add record status
  rw [hh.source, hh.destination, hh.result]

end Handled

namespace Session

variable {s : Session σ} {fixed : Fixed} {started finished : Moment} {source : SourceFile}
  {h : Handled σ} {u : FileTree} {base state : SessionState σ}

theorem commitOutput_adopts {c : Config} {disk : Disk} {text : String} {bom : Bool}
    (hcommit : commitOutput c disk source h.destination text bom h.before.tree =
      (h.result, h.after.tree))
    (hworkdir : u.workdir = h.before.tree.workdir)
    (hdir : h.before.tree.Stands h.before.tree.workdir) (hdir' : u.Stands u.workdir)
    (hu : h.Admits c u) :
    ∃ u', commitOutput c disk source h.destination text bom u = (h.result, u') ∧
      Adopts h.after.tree u u' h.touched := by
  unfold commitOutput at hcommit ⊢
  cases hencode : c.targetEncoding.encode text (bom && c.targetEncoding == .utf8) with
  | error e =>
      rw [hencode] at hcommit
      obtain ⟨hresult, htree⟩ := Prod.mk.inj hcommit
      exact ⟨u, by rw [← hresult], hu.adopts htree.symm⟩
  | ok bytes =>
      rw [hencode] at hcommit
      dsimp only at hcommit ⊢
      rcases hreal : h.before.tree.commit disk c.commitOptions h.destination bytes with ⟨r, t'⟩
      rw [hreal] at hcommit
      have hsame (htree : t' = h.after.tree) (hcommitted : h.isCommitted = true) :
          ∃ u', u.commit disk c.commitOptions h.destination bytes = (r, u') ∧
            Adopts h.after.tree u u' h.touched := by
        rw [htree] at hreal
        rw [Handled.touched, if_pos hcommitted]
        exact commit_adopts hworkdir hdir hdir' hreal (hu hcommitted)
      cases r with
      | error fault =>
          obtain ⟨hresult, htree⟩ := Prod.mk.inj hcommit
          obtain ⟨u', hcommit', hadopts⟩ := hsame htree
            (by rw [Handled.isCommitted, ← hresult]; exact isOfCommit_of_commit hreal)
          exact ⟨u', by rw [hcommit', ← hresult], hadopts⟩
      | ok commit =>
          obtain ⟨hresult, htree⟩ := Prod.mk.inj hcommit
          obtain ⟨u', hcommit', hadopts⟩ := hsame htree
            (by rw [Handled.isCommitted, ← hresult]; cases commit <;> rfl)
          exact ⟨u', by rw [hcommit', ← hresult], hadopts⟩

/-- A file comes to the same in another state of the session, in which it finds what it looks up and
which admits its commit. -/
theorem processFile_adopts (state : SessionState σ)
    (hh : (s.processFile fixed started h.source).run h.before =
      ((h.destination, h.result), h.after))
    (hhost : state.host = h.before.host) (hworkdir : state.tree.workdir = h.before.tree.workdir)
    (hdir : h.before.tree.Stands h.before.tree.workdir)
    (hdir' : state.tree.Stands state.tree.workdir)
    (hreads : ∀ p ∈ s.lookupsOf fixed started h.source h.before,
      NamesAlike h.before.tree state.tree p)
    (hu : h.Admits s.config state.tree) :
    ∃ after, (s.processFile fixed started h.source).run state =
        ((h.destination, h.result), after) ∧
      after.host = h.after.host ∧ Adopts h.after.tree state.tree after.tree h.touched := by
  rcases hrun : (Source.preprocess s.host h.before.tree s.config.options h.source.path).run
    (s.engineFor fixed started h.before) with ⟨r, e⟩
  obtain ⟨log, hrun'⟩ := exists_run_of_alike hhost hreads hrun
  cases r with
  | error d =>
      rw [run_processFile_of_error hrun] at hh
      obtain ⟨houtcome, hafter⟩ := Prod.mk.inj hh
      refine ⟨_, (run_processFile_of_error hrun').trans (by rw [houtcome]), by rw [← hafter], ?_⟩
      exact hu.adopts (by rw [← hafter])
  | ok outcome =>
      cases outcome with
      | excluded =>
          rw [run_processFile_of_excluded hrun] at hh
          obtain ⟨houtcome, hafter⟩ := Prod.mk.inj hh
          refine ⟨_, (run_processFile_of_excluded hrun').trans (by rw [houtcome]),
            by rw [← hafter], ?_⟩
          exact hu.adopts (by rw [← hafter])
      | text text bom outname =>
          rw [run_processFile_of_output hrun] at hh
          rcases hcommit : commitOutput s.config s.disk h.source
            (s.destinationOf h.source outname) text bom h.before.tree with ⟨r, t⟩
          rw [hcommit] at hh
          obtain ⟨houtcome, hafter⟩ := Prod.mk.inj hh
          obtain ⟨hdestination, hresult⟩ := Prod.mk.inj houtcome
          have htree : t = h.after.tree := by rw [← hafter]
          rw [hdestination, hresult, htree] at hcommit
          obtain ⟨u', hcommit', hadopts⟩ := commitOutput_adopts hcommit hworkdir hdir hdir' hu
          refine ⟨{ state with host := e.host, log := log, tree := u' }, ?_, ?_, hadopts⟩
          · rw [run_processFile_of_output hrun', hdestination, hcommit']
          · rw [← hafter]

theorem host_processFile (hhost : s.host = .declining σ) (fixed : Fixed) (started : Moment)
    (source : SourceFile) (state : SessionState σ) :
    ((s.processFile fixed started source).run state).2.host = state.host := by
  rcases hrun : (Source.preprocess s.host state.tree s.config.options source.path).run
    (s.engineFor fixed started state) with ⟨r, e⟩
  have hkept : e.host = state.host := by
    rw [hhost] at hrun
    exact Source.host_of_declining hrun
  cases r with
  | error d => rw [run_processFile_of_error hrun, hkept]
  | ok outcome =>
      cases outcome with
      | excluded => rw [run_processFile_of_excluded hrun, hkept]
      | text text bom outname => rw [run_processFile_of_output hrun, hkept]

theorem processFile_of_handle (hh : s.handle fixed started h.source base = h) :
    (s.processFile fixed started h.source).run h.before = ((h.destination, h.result), h.after) := by
  rw [← hh]
  rfl

theorem handle_adopts (hh : s.handle fixed started h.source base = h)
    (hhost : state.host = base.host) (hworkdir : state.tree.workdir = base.tree.workdir)
    (hdir : base.tree.Stands base.tree.workdir) (hdir' : state.tree.Stands state.tree.workdir)
    (hreads : ∀ p ∈ s.lookupsOf fixed started h.source h.before, NamesAlike base.tree state.tree p)
    (hu : h.Admits s.config state.tree) :
    h.Echoes (s.handle fixed started h.source state) ∧
      (s.handle fixed started h.source state).after.host = h.after.host ∧
      Adopts h.after.tree state.tree (s.handle fixed started h.source state).after.tree
        h.touched := by
  have hbefore : h.before = base.noted .debug ("Preprocessing " ++ h.source.relative.text) := by
    rw [← hh]
    rfl
  obtain ⟨after, hrun, hafter, hadopts⟩ := processFile_adopts
    (state.noted .debug ("Preprocessing " ++ h.source.relative.text)) (processFile_of_handle hh)
    (by rw [hbefore]; exact hhost) (by rw [hbefore]; exact hworkdir) (by rw [hbefore]; exact hdir)
    hdir' (fun p hp => by rw [hbefore]; exact hreads p hp) hu
  rw [handle, hrun]
  exact ⟨⟨rfl, rfl, rfl⟩, hafter, hadopts⟩

theorem evolves_of_handle {hs : List (Handled σ)}
    (hh : ∀ h ∈ hs, s.handle fixed started h.source base = h) :
    ∀ d ∈ hs.map (·.after.tree), Evolves base.tree d := by
  intro d hd
  obtain ⟨h, hmem, rfl⟩ := List.mem_map.mp hd
  rw [← hh h hmem]
  exact s.evolves_processFile fixed started h.source
    (base.noted .debug ("Preprocessing " ++ h.source.relative.text))

/-! ## Several files -/

/-- Files that do not influence each other, as each of them is by itself: none looks up a path that
all of them together disturb, and each admits the others' changes.  Nobody asks the run to stop. -/
structure Independent (s : Session σ) (fixed : Fixed) (started : Moment) (base : SessionState σ)
    (joint : FileTree) (hs : List (Handled σ)) : Prop where
  host : s.host = .declining σ
  calm : ∀ index, s.raised index = false
  policy : s.config.errorPolicy = .bestEffort
  stands : base.tree.Stands base.tree.workdir
  alone : ∀ h ∈ hs, s.handle fixed started h.source base = h
  joins : Joins base.tree (hs.map (·.after.tree)) joint
  reads : ∀ h ∈ hs, ∀ p ∈ s.lookupsOf fixed started h.source h.before,
    Undisturbed base.tree joint p
  commits : hs.Pairwise fun h h' =>
    h.Admits s.config h'.after.tree ∧ h'.Admits s.config h.after.tree

namespace Independent

variable {joint : FileTree} {hs hs' : List (Handled σ)}

theorem perm (hind : s.Independent fixed started base joint hs) (hperm : hs'.Perm hs) :
    s.Independent fixed started base joint hs' where
  host := hind.host
  calm := hind.calm
  policy := hind.policy
  stands := hind.stands
  alone h hmem := hind.alone h (hperm.mem_iff.mp hmem)
  joins := hind.joins.congr fun _ => (hperm.map _).mem_iff
  reads h hmem := hind.reads h (hperm.mem_iff.mp hmem)
  commits := (hperm.pairwise_iff fun hadmits => hadmits.symm).mpr hind.commits

theorem before (hind : s.Independent fixed started base joint hs) {h : Handled σ} (hmem : h ∈ hs) :
    h.before.tree = base.tree := by
  rw [← hind.alone h hmem]
  rfl

theorem host_after (hind : s.Independent fixed started base joint hs) {h : Handled σ}
    (hmem : h ∈ hs) : h.after.host = base.host := by
  rw [← hind.alone h hmem]
  exact host_processFile hind.host fixed started h.source _

theorem evolves (hind : s.Independent fixed started base joint hs) :
    ∀ d ∈ hs.map (·.after.tree), Evolves base.tree d :=
  evolves_of_handle hind.alone

/-- A file changes only what its commit looks at. -/
theorem frame (hind : s.Independent fixed started base joint hs) {h : Handled σ} (hmem : h ∈ hs) :
    ∀ loc ∉ h.touched, h.after.tree.entry? loc = base.tree.entry? loc := by
  have hh := processFile_of_handle (hind.alone h hmem)
  have htree := hind.before hmem
  have hstands : h.before.tree.Stands h.before.tree.workdir := htree ▸ hind.stands
  obtain ⟨after, hrun, -, hadopts⟩ := processFile_adopts h.before hh rfl rfl hstands hstands
    (fun p _ => ⟨rfl, rfl⟩) fun _ loc _ => .inl rfl
  rw [hh] at hrun
  cases (Prod.mk.inj hrun).2
  rw [← htree]
  exact hadopts.outside

/-- Files that admit each other's changes do not change a place in different ways. -/
theorem agree (hind : s.Independent fixed started base joint hs) :
    ∀ d ∈ hs.map (·.after.tree), ∀ d' ∈ hs.map (·.after.tree), Agree base.tree d d' := by
  have hpairs : hs.Pairwise fun h h' => Agree base.tree h.after.tree h'.after.tree := by
    refine hind.commits.imp_of_mem fun {h h'} hmem _ hadmits loc hne hne' => ?_
    have hloc : loc ∈ h.touched := by
      by_contra hloc
      exact hne (hind.frame hmem loc hloc)
    rcases hadmits.1.entry hloc with hsame | ⟨-, hmade, hmade'⟩
    · rw [hind.before hmem] at hsame
      exact absurd hsame hne'
    · rw [hmade, hmade']
  have hsymm : Std.Symm fun h h' : Handled σ => Agree base.tree h.after.tree h'.after.tree :=
    ⟨fun h h' hagree loc hne hne' => (hagree loc hne' hne).symm⟩
  intro d hd d' hd'
  obtain ⟨h, hmem, rfl⟩ := List.mem_map.mp hd
  obtain ⟨h', hmem', rfl⟩ := List.mem_map.mp hd'
  exact List.Pairwise.forall_of_forall (fun _ _ _ _ _ => rfl) hpairs hmem hmem'

/-- A file after some of the others: it comes to what it comes to by itself, and joins its changes
to theirs. -/
theorem handle {done todo : List (Handled σ)}
    (hind : s.Independent fixed started base joint (done ++ h :: todo))
    (hhost : state.host = base.host)
    (htree : Joins base.tree (done.map (·.after.tree)) state.tree) :
    h.Echoes (s.handle fixed started h.source state) ∧
      (s.handle fixed started h.source state).after.host = base.host ∧
      Joins base.tree ((done ++ [h]).map (·.after.tree))
        (s.handle fixed started h.source state).after.tree := by
  have hmem : h ∈ done ++ h :: todo := by simp
  have hdone : done.map (·.after.tree) ⊆ (done ++ h :: todo).map (·.after.tree) := by
    rw [List.map_append]
    exact List.subset_append_left _ _
  have hadmits : ∀ h' ∈ done, h.Admits s.config h'.after.tree := fun h' hmem' =>
    ((List.pairwise_append.mp hind.commits).2.2 h' hmem' h List.mem_cons_self).2
  have hbefore := hind.before hmem
  have hevolves : Evolves base.tree state.tree :=
    htree.evolves fun d hd => hind.evolves d (hdone hd)
  have hreads : ∀ p ∈ s.lookupsOf fixed started h.source h.before,
      NamesAlike base.tree state.tree p := fun p hp =>
    (hind.reads h hmem p hp).namesAlike_of_partway (hind.joins.evolves hind.evolves) htree.workdir
      (htree.partway hind.joins hdone hind.agree)
  have hu : h.Admits s.config state.tree := by
    intro hcommitted loc hloc
    rcases htree.entry loc with ⟨hsame, -⟩ | ⟨d, hd, -, hchange⟩
    · rw [hbefore]
      exact .inl hsame
    · obtain ⟨h', hmem', rfl⟩ := List.mem_map.mp hd
      have hshared := hadmits h' hmem' hcommitted loc hloc
      unfold SharesDirectory at hshared ⊢
      rwa [hchange]
  obtain ⟨hechoes, hafter, hadopts⟩ := handle_adopts (hind.alone h hmem) hhost htree.workdir
    hind.stands (htree.workdir ▸ hind.stands.evolves hevolves) hreads hu
  refine ⟨hechoes, hafter.trans (hind.host_after hmem), ?_⟩
  rw [List.map_append]
  refine htree.adopts hadopts (hind.frame hmem) fun loc hloc hsame d hd => ?_
  obtain ⟨h', hmem', rfl⟩ := List.mem_map.mp hd
  rcases (hadmits h' hmem').entry hloc with hkept | ⟨hnone, hmade, -⟩
  · rw [hkept, hbefore]
  · rw [hsame, ← hbefore, hnone] at hmade
    cases hmade

theorem stops (hind : s.Independent fixed started base joint hs) (index : Nat) (host : σ) :
    s.stops index host = false := by
  rw [Session.stops, hind.calm, hind.host]
  rfl

/-- Files that come after others come to what they come to by themselves, and are summed up so. -/
theorem processFiles {done todo : List (Handled σ)}
    (hind : s.Independent fixed started base joint (done ++ todo)) (hhost : state.host = base.host)
    (htree : Joins base.tree (done.map (·.after.tree)) state.tree) (index : Nat)
    (summary : Summary) :
    ∃ summary' state',
      (s.processFiles fixed started index (todo.map Handled.source) summary).run state =
        (.ok summary', state') ∧
      Joins base.tree ((done ++ todo).map (·.after.tree)) state'.tree ∧
      summary'.records.toList = summary.records.toList ++ todo.map (Handled.record s.config) ∧
      summary'.errors.toList =
        summary.errors.toList ++ todo.filterMap fun h => h.failure?.map Diagnostic.text := by
  induction todo generalizing done state index summary with
  | nil => exact ⟨summary, state, rfl, by rwa [List.append_nil], by simp, by simp⟩
  | cons h todo ih =>
      obtain ⟨hechoes, hafter, htree'⟩ := hind.handle hhost htree
      have hgo := hind.stops index state.host
      rw [List.append_cons] at hind ⊢
      rw [List.map_cons, run_processFiles_cons hind.policy hgo, hechoes.add]
      rw [← Handled.tree_reported] at htree'
      rw [← Handled.host_reported] at hafter
      obtain ⟨summary', state', hrun, hjoins, hrecords, herrors⟩ := ih hind hafter htree'
        (index + 1) (summary.add s.config h)
      refine ⟨summary', state', hrun, hjoins, ?_, ?_⟩
      · rw [hrecords, Summary.records_add]
        simp
      · rw [herrors, Summary.errors_add, List.filterMap_cons, List.append_assoc]
        cases h.failure?.map Diagnostic.text <;> rfl

end Independent

/-! ## Runs -/

/-- The files of a run, each as it is if it is the only one. -/
def alone (s : Session σ) (started : Moment) (sources : List SourceFile) (state : SessionState σ) :
    List (Handled σ) :=
  sources.flatMap fun source => s.handledIn started [source] state

variable {sources sources' : List SourceFile} {state₁ : SessionState σ}

theorem alone_of_prepare (hhost : s.host = .declining σ) (hcalm : ∀ index, s.raised index = false)
    (hpolicy : s.config.errorPolicy = .bestEffort)
    (hprepare : (s.prepare started).run state = (.ok fixed, state₁)) (sources : List SourceFile) :
    s.alone started sources state =
      sources.map fun source => s.handle fixed started source (loaded fixed state₁) := by
  have hgo : s.stops 0 (loaded fixed state₁).host = false := by
    rw [stops, hcalm, hhost]
    rfl
  have hone (source : SourceFile) : s.handledIn started [source] state =
      [s.handle fixed started source (loaded fixed state₁)] := by
    rw [handledIn, hprepare]
    exact handled_cons hpolicy hgo
  unfold alone
  simp only [hone]
  exact List.map_eq_flatMap.symm

theorem exists_independent (hpolicy : s.config.errorPolicy = .bestEffort)
    (hhost : s.host = .declining σ) (hcalm : ∀ index, s.raised index = false)
    (hprepare : (s.prepare started).run state = (.ok fixed, state₁))
    (hstands : state₁.tree.Stands state₁.tree.workdir)
    (hreads : ∀ h ∈ s.alone started sources state, ∀ p ∈ s.lookedUpIn started state h,
      Undisturbed h.before.tree
        (h.before.tree.overlay ((s.alone started sources state).map (·.after.tree))) p)
    (hcommits : (s.alone started sources state).Pairwise fun h h' =>
      h.Admits s.config h'.after.tree ∧ h'.Admits s.config h.after.tree) :
    ∃ joint, s.Independent fixed started (loaded fixed state₁) joint
      (s.alone started sources state) := by
  have hhandle : ∀ h ∈ s.alone started sources state,
      s.handle fixed started h.source (loaded fixed state₁) = h := by
    rw [alone_of_prepare hhost hcalm hpolicy hprepare]
    intro h hmem
    obtain ⟨source, -, rfl⟩ := List.mem_map.mp hmem
    rfl
  refine ⟨_, hhost, hcalm, hpolicy, hstands, hhandle, joins_overlay (evolves_of_handle hhandle), ?_,
    hcommits⟩
  intro h hmem p hp
  have hbefore : h.before.tree = (loaded fixed state₁).tree := by
    rw [← hhandle h hmem]
    rfl
  have hlooked : s.lookedUpIn started state h = s.lookupsOf fixed started h.source h.before := by
    rw [lookedUpIn, hprepare]
  have hp' := hreads h hmem p (hlooked ▸ hp)
  rwa [hbefore] at hp'

/-- A run of independent files, in any order. -/
theorem Independent.run {joint : FileTree}
    (hind : s.Independent fixed started (loaded fixed state₁) joint (s.alone started sources state))
    (hprepare : (s.prepare started).run state = (.ok fixed, state₁)) (finished : Moment)
    (hperm : sources'.Perm sources) :
    ∃ summary state', (s.run started finished sources').run state = (.ok summary, state') ∧
      Joins state₁.tree ((s.alone started sources state).map (·.after.tree)) state'.tree ∧
      summary.records.toList = (s.alone started sources' state).map (Handled.record s.config) ∧
      summary.errors.toList =
        (s.alone started sources' state).filterMap fun h => h.failure?.map Diagnostic.text := by
  have halone := alone_of_prepare hind.host hind.calm hind.policy hprepare
  have hperm' : (s.alone started sources' state).Perm (s.alone started sources state) :=
    hperm.flatMap_right _
  have hsources : (s.alone started sources' state).map Handled.source = sources' := by
    rw [halone, List.map_map]
    exact List.map_id _
  have hind' : s.Independent fixed started (loaded fixed state₁) joint
      ([] ++ s.alone started sources' state) := hind.perm hperm'
  obtain ⟨summary, state₂, hfiles, htree, hrecords, herrors⟩ :=
    hind'.processFiles rfl (.nil _) 0 { started := started }
  rw [hsources] at hfiles
  exact ⟨_, _, run_of_files hprepare hfiles,
    htree.congr fun _ => (hperm'.map _).mem_iff.symm, by simpa using hrecords,
    by simpa using herrors⟩

/-- Two sources whose outputs go into one directory, of which one defines a name that the other asks
for, a source that fails and one that excludes itself. -/
def sharingSources : FileTree where
  entries :=
    let file (text : String) := Entry.file (text.toList.map fun c => .ofNat c.toNat)
    [(["src"], .directory), (["a", "src"], file "//#define X = 1\nA\n"),
      (["b", "src"], file "//#endif\n"), (["c", "src"], file "//#excludeif true\n"),
      (["d", "src"], file "//#ifdef X\nX\n//#else\nD\n//#endif\n")]

/-- No destination of a run is read by one of its files, and none is another one or lies around
it. -/
def Apart (s : Session σ) (started finished : Moment) (sources : List SourceFile)
    (state : SessionState σ) : Prop :=
  let t := ((s.run started finished sources).run state).2.tree
  let hs := s.handledIn started sources state
  (∀ h ∈ hs, ∀ h' ∈ hs, ∀ p ∈ s.lookedUpIn started state h,
      t.canonical p ≠ t.canonical h'.destination) ∧
    hs.Pairwise fun h h' =>
      Path.componentsAfter (t.canonical h.destination) (t.canonical h'.destination) = none ∧
        Path.componentsAfter (t.canonical h'.destination) (t.canonical h.destination) = none

instance (s : Session σ) (started finished : Moment) (sources : List SourceFile)
    (state : SessionState σ) : Decidable (s.Apart started finished sources state) :=
  inferInstanceAs (Decidable (_ ∧ _))

/-- A link in the destination that leads nowhere, and a source that names its output so that there
is a directory where it leads. -/
def danglingLink : FileTree where
  entries :=
    let file (text : String) := Entry.file (text.toList.map fun c => .ofNat c.toNat)
    [(["src"], .directory), (["a", "src"], file "A\n"),
      (["b", "src"], file "//#outname \"../new/y\"\nB\n"), (["out"], .directory),
      (["l", "out"], .link ⟨"../new"⟩)]

end Session

end Preprocessor
