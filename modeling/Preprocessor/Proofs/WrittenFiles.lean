/-
A session changes only what it reports as written.

What became of a file tells what it did to the file tree.  A file that was written left its output
at its place and nothing else, but for directories around it.  A file whose output was there left
the tree as it was, and so did one that was processed for show or excluded itself.  A failure may
leave directories that were made before it.  A run adds up what its files did, so every place that
it changed is the place of a file that it reports as written, and holds what the last such file
left there.

An output that was written is read back under its destination in the tree that the file left, with
one exception.  The path of the destination may go through a link and then name that same link as
the file to replace; once a file stands there, the path does not lead anywhere.  The output is at
its place all the same.
-/
import Preprocessor.Proofs.FileChanges
import Preprocessor.Proofs.SessionTrace

namespace Preprocessor

namespace Session

variable {σ : Type} {s : Session σ} {fixed : Fixed} {started : Moment} {source : SourceFile}
  {state : SessionState σ}

/-! ## One file -/

/-- A source comes to these bytes, to be put under this path: its text with the byte order mark
that it had, in the encoding of the output, under the name that it gave to its output. -/
def ComesTo (s : Session σ) (fixed : Fixed) (started : Moment) (source : SourceFile)
    (state : SessionState σ) (destination : Path) (bytes : List UInt8) : Prop :=
  ∃ text bom outname e,
    (Source.preprocess s.host state.tree s.config.options source.path).run
      (s.engineFor fixed started state) = (.ok (.text text bom outname), e) ∧
    destination = s.destinationOf source outname ∧
    s.config.targetEncoding.encode text (bom && s.config.targetEncoding == .utf8) = .ok bytes

/-- What the result of a file tells about the tree that it left. -/
inductive Effect (s : Session σ) (fixed : Fixed) (started : Moment) (source : SourceFile)
    (state : SessionState σ) (destination : Path) :
    Except Diagnostic FileStatus → FileTree → Prop
  | written {bytes : List UInt8} {loc : Location} {t : FileTree} :
      s.ComesTo fixed started source state destination bytes →
      FileTree.Outputs state.tree t destination loc bytes →
      Effect s fixed started source state destination (.ok .written) t
  | unchanged {bytes : List UInt8} :
      s.ComesTo fixed started source state destination bytes →
      state.tree.read destination = .ok bytes →
      Effect s fixed started source state destination (.ok .unchanged) state.tree
  | dryRun : Effect s fixed started source state destination (.ok .dryRun) state.tree
  | excluded : Effect s fixed started source state destination (.ok .excluded) state.tree
  | failed {d : Diagnostic} {t : FileTree} : FileTree.Grows state.tree t →
      Effect s fixed started source state destination (.error d) t

theorem effect_commitOutput {text : String} {bom : Bool} {outname : Option String} {e : Engine σ}
    (h : (Source.preprocess s.host state.tree s.config.options source.path).run
      (s.engineFor fixed started state) = (.ok (.text text bom outname), e)) :
    s.Effect fixed started source state (s.destinationOf source outname)
      (commitOutput s.config s.disk source (s.destinationOf source outname) text bom
        state.tree).1
      (commitOutput s.config s.disk source (s.destinationOf source outname) text bom
        state.tree).2 := by
  unfold commitOutput
  cases hencode : s.config.targetEncoding.encode text
    (bom && s.config.targetEncoding == .utf8) with
  | error e => exact .failed (.refl _)
  | ok bytes =>
      have hcomes : s.ComesTo fixed started source state (s.destinationOf source outname) bytes :=
        ⟨text, bom, outname, e, h, rfl, hencode⟩
      rcases hcommit : state.tree.commit s.disk s.config.commitOptions
        (s.destinationOf source outname) bytes with ⟨r, t⟩
      dsimp only
      rw [hcommit]
      rcases FileTree.commit_cases hcommit with
        ⟨rfl, rfl⟩ | ⟨rfl, rfl, hread⟩ | ⟨rfl, loc, houtputs⟩ | ⟨⟨fault, rfl⟩, hgrows⟩
      · exact .dryRun
      · exact .unchanged hcomes hread
      · exact .written hcomes houtputs
      · exact .failed hgrows

/-- Processing a file has the effect that its result tells. -/
theorem effect_processFile (s : Session σ) (fixed : Fixed) (started : Moment)
    (source : SourceFile) (state : SessionState σ) :
    s.Effect fixed started source state ((s.processFile fixed started source).run state).1.1
      ((s.processFile fixed started source).run state).1.2
      ((s.processFile fixed started source).run state).2.tree := by
  rcases h : (Source.preprocess s.host state.tree s.config.options source.path).run
    (s.engineFor fixed started state) with ⟨r, e⟩
  cases r with
  | error d =>
      rw [run_processFile_of_error h]
      exact .failed (.refl _)
  | ok outcome =>
      cases outcome with
      | excluded =>
          rw [run_processFile_of_excluded h]
          exact .excluded
      | text text bom outname =>
          rw [run_processFile_of_output h]
          exact effect_commitOutput h

/-- The only place that a file can change, apart from adding directories, is that of its output,
and then it was written. -/
theorem Effect.entry {destination : Path} {r : Except Diagnostic FileStatus} {t : FileTree}
    (h : s.Effect fixed started source state destination r t) (loc : Location) :
    t.entry? loc = state.tree.entry? loc ∨
      (state.tree.entry? loc = none ∧ t.entry? loc = some .directory) ∨
      r = .ok .written ∧ state.tree.outputLocation? destination = some loc ∧
        ∃ bytes, t.entry? loc = some (.file bytes) := by
  cases h with
  | @written bytes place _ _ houtputs =>
      by_cases hloc : loc = place
      · subst hloc
        exact .inr (.inr ⟨rfl, houtputs.location, bytes, houtputs.content⟩)
      · exact (houtputs.others loc hloc).imp_right .inl
  | unchanged => exact .inl rfl
  | dryRun => exact .inl rfl
  | excluded => exact .inl rfl
  | failed hgrows => exact (hgrows.entry loc).imp_right .inl

/-! ## A whole run -/

/-- Every place where two trees differ is that of a file that was written, and holds what the file
left there, or is a directory where nothing stood. -/
def Accounts (hs : List (Handled σ)) (t t' : FileTree) : Prop :=
  ∀ loc, t'.entry? loc = t.entry? loc ∨
    (t.entry? loc = none ∧ t'.entry? loc = some .directory) ∨
    ∃ h ∈ hs, h.result = .ok .written ∧
      h.before.tree.outputLocation? h.destination = some loc ∧
      ∃ bytes, h.after.tree.entry? loc = some (.file bytes) ∧ t'.entry? loc = some (.file bytes)

theorem accounts_handle (s : Session σ) (fixed : Fixed) (started : Moment) (source : SourceFile)
    (state : SessionState σ) :
    Accounts [s.handle fixed started source state] state.tree
      (s.handle fixed started source state).reported.tree := by
  rw [Handled.tree_reported]
  intro loc
  have heffect := s.effect_processFile fixed started source
    (state.noted .debug ("Preprocessing " ++ source.relative.text))
  rcases heffect.entry loc with hsame | hnew | ⟨hwritten, hplace, bytes, hbytes⟩
  · exact .inl hsame
  · exact .inr (.inl hnew)
  · exact .inr (.inr ⟨_, List.mem_singleton_self _, hwritten, hplace, bytes, hbytes, hbytes⟩)

/-- Files account for what they changed one after another. -/
theorem Accounts.cons {h : Handled σ} {hs : List (Handled σ)} {t t₁ t₂ : FileTree}
    (hfirst : Accounts [h] t t₁) (hrest : Accounts hs t₁ t₂) : Accounts (h :: hs) t t₂ := by
  intro loc
  rcases hrest loc with hsame | ⟨hnone, hnew⟩ | ⟨h', hmem, hwritten⟩
  · rw [hsame]
    rcases hfirst loc with hsame' | hnew' | ⟨h', hmem, hwritten⟩
    · exact .inl hsame'
    · exact .inr (.inl hnew')
    · exact .inr (.inr ⟨h', List.mem_cons.mpr (.inl (List.mem_singleton.mp hmem)), hwritten⟩)
  · -- where nothing stood in between, the first file has changed nothing
    rcases hfirst loc with hsame' | ⟨-, hnew'⟩ | ⟨-, -, -, -, bytes, -, hbytes⟩
    · exact .inr (.inl ⟨hsame'.symm.trans hnone, hnew⟩)
    · exact absurd (hnone.symm.trans hnew') (by decide)
    · exact absurd (hnone.symm.trans hbytes) (Option.some_ne_none _).symm
  · exact .inr (.inr ⟨h', List.mem_cons_of_mem _ hmem, hwritten⟩)

theorem accounts_processFiles (s : Session σ) (fixed : Fixed) (started : Moment) (index : Nat)
    (sources : List SourceFile) (state : SessionState σ) (summary : Summary) :
    Accounts (s.handled fixed started index sources state) state.tree
      ((s.processFiles fixed started index sources summary).run state).2.tree := by
  refine processFiles_induction s fixed started
    (P := fun hs state _ _ state' => Accounts hs state.tree state'.tree) ?_ ?_ ?_ ?_ index sources
    state summary
  · intro state _ loc
    exact .inl rfl
  · intro state _ loc
    exact .inl rfl
  · intro source state _ _ _
    exact s.accounts_handle fixed started source state
  · intro source state _ hs _ state' ih
    exact (s.accounts_handle fixed started source state).cons ih

/-- A run accounts for what it changed, and its summary, if there is one, records the files that
account for it. -/
theorem accounts_run (s : Session σ) (started finished : Moment) (sources : List SourceFile)
    (state : SessionState σ) (hclear : s.config.clearDestination = false) :
    Accounts (s.handledIn started sources state) state.tree
        ((s.run started finished sources).run state).2.tree ∧
      ∀ summary, ((s.run started finished sources).run state).1 = .ok summary →
        summary.records.toList =
          (s.handledIn started sources state).map (Handled.record s.config) := by
  rcases hprepare : (s.prepare started).run state with ⟨r, state₁⟩
  have htree : state₁.tree = state.tree := quiet_prepare hclear started state r state₁ hprepare
  rw [handledIn, hprepare]
  cases r with
  | error d =>
      rw [run_of_prepare_error hprepare]
      refine ⟨fun loc => .inl ?_, fun summary hsummary => by cases hsummary⟩
      exact congrArg (FileTree.entry? · loc) htree
  | ok fixed =>
      have haccounts := s.accounts_processFiles fixed started 0 sources (loaded fixed state₁)
        { started := started }
      rcases hfiles : (s.processFiles fixed started 0 sources { started := started }).run
        (loaded fixed state₁) with ⟨r, state₂⟩
      rw [hfiles, show (loaded fixed state₁).tree = state.tree from htree] at haccounts
      cases r with
      | error d =>
          rw [run_of_files_error hprepare hfiles]
          exact ⟨haccounts, fun summary hsummary => by cases hsummary⟩
      | ok summary =>
          rw [run_of_files hprepare hfiles]
          refine ⟨haccounts, fun summary' hsummary => ?_⟩
          cases hsummary
          exact records_of_processFiles sources _ hfiles

/-- A session changes only what it reports as written.  Processing a file has the effect that its
result tells: one that was written left exactly its encoded text at the end of its destination,
whatever name it gave to its output, and reading the destination gives that text unless the path
went through a link which the text has replaced; one reported as unchanged found these bytes there;
and in every other case, failures of all kinds among them, each file and each link is as it was.  A
whole run that clears nothing, whether it succeeds or fails, therefore changes only the places of
files that it handled and reports as written, apart from adding directories. -/
theorem changes_of_run (s : Session σ) (started finished : Moment) (sources : List SourceFile)
    (state : SessionState σ) (hclear : s.config.clearDestination = false) :
    (∀ (fixed : Fixed) (source : SourceFile) (before : SessionState σ),
      s.Effect fixed started source before ((s.processFile fixed started source).run before).1.1
        ((s.processFile fixed started source).run before).1.2
        ((s.processFile fixed started source).run before).2.tree) ∧
    Accounts (s.handledIn started sources state) state.tree
      ((s.run started finished sources).run state).2.tree ∧
    ∀ summary, ((s.run started finished sources).run state).1 = .ok summary →
      summary.records.toList =
        (s.handledIn started sources state).map (Handled.record s.config) :=
  ⟨fun fixed source before => s.effect_processFile fixed started source before,
    s.accounts_run started finished sources state hclear⟩

/-- A source that names its output, one that fails, one that excludes itself and one whose output
is there already.  A link to the first source stands where its output goes. -/
def fourSources : FileTree where
  entries :=
    let file (text : String) := Entry.file (text.toList.map fun c => .ofNat c.toNat)
    [(["src"], .directory), (["a", "src"], file "//#outname \"x\"\nA\n"),
      (["b", "src"], file "//#endif\n"), (["c", "src"], file "//#excludeif true\n"),
      (["d", "src"], file "D"), (["out"], .directory), (["x", "out"], .link ⟨"../src/a"⟩),
      (["d", "out"], file "D")]

/-- The link is replaced, and every file stays, the one that it led to among them. -/
theorem changes_of_fourSources :
    let s : Session Unit :=
      { config := { destination := ⟨"out"⟩, errorPolicy := .bestEffort, skipUnchanged := true }
        host := .declining Unit }
    let sources : List SourceFile :=
      ["a", "b", "c", "d"].map fun name => ⟨⟨"src/" ++ name⟩, ⟨name⟩⟩
    let state : SessionState Unit := { tree := fourSources, host := () }
    let o := (s.run ⟨0, 0⟩ ⟨1, 0⟩ sources).run state
    s.config.clearDestination = false ∧
      (s.handledIn ⟨0, 0⟩ sources state).map (fun h => (h.destination.text, h.status)) =
        [("out/x", .written), ("out/b", .failed), ("out/c", .excluded), ("out/d", .unchanged)] ∧
      o.2.tree.entry? ["x", "out"] = some (.file ("A\n".toList.map fun c => .ofNat c.toNat)) ∧
      ∀ loc bytes, fourSources.entry? loc = some (.file bytes) →
        o.2.tree.entry? loc = some (.file bytes) := by
  intro s sources state o
  have hplaces : ∀ h ∈ s.handledIn ⟨0, 0⟩ sources state, h.status = .written →
      h.before.tree.outputLocation? h.destination = some ["x", "out"] := by
    decide +kernel
  obtain ⟨-, haccounts, -⟩ := changes_of_run s ⟨0, 0⟩ ⟨1, 0⟩ sources state rfl
  refine ⟨rfl, by decide +kernel, by decide +kernel, fun loc bytes hfile => ?_⟩
  rcases haccounts loc with hsame | ⟨hnone, -⟩ | ⟨h, hmem, hwritten, hplace, -⟩
  · exact hsame.trans hfile
  · exact absurd (hnone.symm.trans hfile) (Option.some_ne_none _).symm
  · -- the place of the file that was written held a link
    have hstatus : h.status = .written := by rw [Handled.status, hwritten]
    cases hplace.symm.trans (hplaces h hmem hstatus)
    exact absurd hfile (by intro hlink; cases hlink)

/-- A link in the destination that leads back to the destination. -/
def linkedDestination : FileTree where
  entries :=
    [(["src"], .directory), (["a", "src"], .file [97]), (["out"], .directory),
      (["x", "out"], .link ⟨"."⟩)]

/-- A destination that goes through the link to the link itself.  The output takes the place of the
link, and then there is nothing for the destination to go through. -/
theorem unread_linkedDestination :
    let s : Session Unit := { config := { destination := ⟨"out"⟩ }, host := .declining Unit }
    let source : SourceFile := ⟨⟨"src/a"⟩, ⟨"x/x"⟩⟩
    let o := (s.processFile ⟨[], []⟩ ⟨0, 0⟩ source).run { tree := linkedDestination, host := () }
    o.1.1 = ⟨"out/x/x"⟩ ∧ o.1.2.toOption = some .written ∧
      o.2.tree.entry? ["x", "out"] = some (.file [97]) ∧
      o.2.tree.locate o.1.1 = .error .notADirectory ∧ (o.2.tree.read o.1.1).toOption = none := by
  decide +kernel

end Session

end Preprocessor
