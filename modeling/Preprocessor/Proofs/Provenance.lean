/-
Where a diagnostic points.

A run that fails has gone from its root through lines that include a file, each into the file of
the next, to a file whose processing fails of itself: it cannot be read, one of its lines cannot
be followed, or it ends with a block open.  The frames of the diagnostic are these lines, the
innermost first.  Only the removal of comments, which looks at the output as a whole, names no
line.
-/
import Preprocessor.Proofs.Inclusion
import Preprocessor.Proofs.LineOutcomes
import Preprocessor.Proofs.OpenBlocks

namespace Preprocessor

namespace Source

variable {σ : Type}

/-! ## How a file fails -/

/-- A line of a visited file cannot be followed: what it does fails, or the file that it asks
for cannot be opened. -/
inductive Stuck (host : Host σ) (t : FileTree) (options : Options) (v : Visit σ)
    (before : List Line) (content : String) : Fault → Prop
  | step {scope scope' : Scope} {out : Output} {e e' : Engine σ} {fault : Fault} :
      Follows host t options v before scope out e →
      e.processLine host ⟨v.path, before.length⟩ content scope = (.error fault, scope', e') →
      Stuck host t options v before content fault
  | opening {scope scope' : Scope} {out : Output} {e e' : Engine σ} {target : String}
      {fault : Fault} :
      Follows host t options v before scope out e →
      e.processLine host ⟨v.path, before.length⟩ content scope =
        (.ok (.includeFile target), scope', e') →
      openInclude t options (v.trail.atLine before.length) v.path target = .error fault →
      Stuck host t options v before content fault

/-- The processing of a visited file fails of itself, and not in a file that it includes. -/
inductive Fails (host : Host σ) (t : FileTree) (options : Options) (v : Visit σ) :
    Diagnostic → Prop
  | unreadable {fault : Fault} :
      readText t options v.path = .error fault →
      Fails host t options v ⟨fault, none, v.trail⟩
  | line {decoded : Decoded} {before after : List Line} {line : Line} {fault : Fault} :
      readText t options v.path = .ok decoded →
      Text.lines decoded.text = before ++ line :: after →
      Stuck host t options v before line.content fault →
      Fails host t options v ⟨fault, some line.content, v.trail.atLine before.length⟩
  | unclosed {decoded : Decoded} {scope : Scope} {out : Output} {e : Engine σ} {n : Nat} :
      readText t options v.path = .ok decoded →
      Follows host t options v (Text.lines decoded.text) scope out e →
      scope.conditions.innermostOpen = some n →
      Fails host t options v (unclosed v.trail (Text.lines decoded.text) n)

variable {host : Host σ} {t : FileTree} {options : Options} {v : Visit σ} {decoded : Decoded}
  {d : Diagnostic}

theorem fails_or_opens_of_singleton (hread : readText t options v.path = .ok decoded)
    {before after : List Line} {line : Line} {scope : Scope} {out : Output} {e e' : Engine σ}
    (hlines : Text.lines decoded.text = before ++ line :: after)
    (hbefore : Follows host t options v before scope out e)
    (h : (followLines host t options (descend host t options) v.trail v.path before.length
      [line] scope out).run e = (.error d, e')) :
    Fails host t options v d ∨ ∃ w, Opens host t options v w ∧
      ∃ e₂, (descend host t options w.trail w.path w.out).run w.engine = (.error d, e₂) := by
  rw [run_followLines_singleton] at h
  rcases hstep : e.processLine host ⟨v.path, before.length⟩ line.content scope with
    ⟨r, scope₁, e₁⟩
  rw [hstep] at h
  cases r with
  | error fault =>
      cases h
      exact .inl (.line hread hlines (.step hbefore hstep))
  | ok step =>
      cases step with
      | emit text => cases h
      | skip => cases h
      | exclude => cases h
      | includeFile target =>
          dsimp only at h
          cases hopen : openInclude t options (v.trail.atLine before.length) v.path target with
          | error fault =>
              rw [hopen] at h
              cases h
              exact .inl (.line hread hlines (.opening hbefore hstep hopen))
          | ok included =>
              rw [hopen] at h
              refine .inr ⟨_, .line hread hlines hbefore hstep hopen, ?_⟩
              dsimp only at h
              split at h
              · rename_i hdescend
                cases h
                exact ⟨_, hdescend⟩
              · cases h

theorem fails_or_opens_of_followLines (hread : readText t options v.path = .ok decoded)
    {before rest : List Line} {scope : Scope} {out : Output} {e e' : Engine σ}
    (hlines : Text.lines decoded.text = before ++ rest)
    (hbefore : Follows host t options v before scope out e)
    (h : (followLines host t options (descend host t options) v.trail v.path before.length
      rest scope out).run e = (.error d, e')) :
    Fails host t options v d ∨ ∃ w, Opens host t options v w ∧
      ∃ e₂, (descend host t options w.trail w.path w.out).run w.engine = (.error d, e₂) := by
  induction rest generalizing before scope out e with
  | nil => cases h
  | cons line rest ih =>
      rcases followLines_cons_cases h with ⟨hline, -⟩ | ⟨scope₁, out₁, e₁, hline, hrest⟩
      · exact fails_or_opens_of_singleton hread hlines hbefore hline
      · have hlines' : Text.lines decoded.text = (before ++ [line]) ++ rest := by
          rw [hlines, List.append_assoc]
          rfl
        have hlength : (before ++ [line]).length = before.length + 1 := by
          rw [List.length_append, List.length_singleton]
        exact ih hlines' (hbefore.snoc hline) (hlength.symm ▸ hrest)

/-- A file whose processing fails does so of itself, or begins a file that fails. -/
theorem fails_or_opens_of_processWith {e' : Engine σ}
    (h : (processWith host t options (descend host t options) v.trail v.path v.out).run
      v.engine = (.error d, e')) :
    Fails host t options v d ∨ ∃ w, Opens host t options v w ∧
      ∃ e₂, (descend host t options w.trail w.path w.out).run w.engine = (.error d, e₂) := by
  rw [processWith] at h
  cases hread : readText t options v.path with
  | error fault =>
      rw [hread] at h
      cases h
      exact .inl (.unreadable hread)
  | ok decoded =>
      rw [hread] at h
      dsimp only at h
      rcases hrun : (followLines host t options (descend host t options) v.trail v.path 0
        (Text.lines decoded.text) {} v.out).run v.engine with
        ⟨d₁ | ⟨fileEnd, scope, out⟩, e₁⟩
      · rw [run_bind_of_error hrun] at h
        cases h
        exact fails_or_opens_of_followLines hread (List.nil_append _).symm (.nil v) hrun
      · rw [run_bind_of_ok hrun] at h
        dsimp only at h
        split at h
        · rename_i n hopen
          cases h
          exact .inl (.unclosed hread hrun hopen)
        · cases h

theorem run_processWith_of_descend (hv : v.Fresh t) {e' : Engine σ}
    (h : (descend host t options v.trail v.path v.out).run v.engine = (.error d, e')) :
    (processWith host t options (descend host t options) v.trail v.path v.out).run v.engine =
      (.error d, e') := by
  have hfiles := t.length_regularFiles_le
  have hroom : t.regularFiles.length < t.files.length + 1 + v.outer.length := by omega
  have hprocess : process host t options (t.files.length + 1) (v.outer.enter v.path) v.path v.out =
      processWith host t options (descend host t options) (v.outer.enter v.path) v.path v.out :=
    process_eq hv.distinct hv.isNew hroom v.out
  rw [descend, descendWithin, Visit.trail, hprocess] at h
  rcases hrun : (processWith host t options (descend host t options) (v.outer.enter v.path)
    v.path v.out).run v.engine with ⟨r, e₁⟩
  cases r with
  | error d₁ =>
      rw [run_bind_of_error hrun] at h
      cases h
      exact hrun
  | ok next =>
      rw [run_bind_of_ok hrun] at h
      cases h

/-- A file whose processing fails leads to a visit that fails of itself.  Each inclusion on the
way opens one more of the regular files, so there are no more of them than files left. -/
theorem exists_fails {left : Nat} (hv : v.Fresh t)
    (hleft : t.regularFiles.length < left + v.outer.length) {e' : Engine σ}
    (h : (processWith host t options (descend host t options) v.trail v.path v.out).run
      v.engine = (.error d, e')) :
    ∃ w, Relation.ReflTransGen (Opens host t options) v w ∧ Fails host t options w d := by
  induction left generalizing v e' with
  | zero =>
      have hle := hv.distinct.length_le
      omega
  | succ left ih =>
      rcases fails_or_opens_of_processWith h with hfails | ⟨w, hopens, e₂, hdescend⟩
      · exact ⟨v, .refl, hfails⟩
      · -- one more file is open in the visit that fails, so one less is left
        have hw := hopens.fresh hv
        have hdeeper : w.outer.length = v.outer.length + 1 := hopens.length_outer
        have hleft' : t.regularFiles.length < left + w.outer.length := by omega
        obtain ⟨u, hreach, hfails⟩ := ih hw hleft' (run_processWith_of_descend hw hdescend)
        exact ⟨u, .head hopens hreach, hfails⟩

/-! ## The lines that led to a visit -/

section

variable (host t options) (root : Path) (e : Engine σ)

/-- `IncludedFrom inner outer`: in the run, the line of `outer` is an `include` directive that
is reached, its expression has a value there, and the value names the file of `inner`. -/
inductive IncludedFrom : Position → Position → Prop
  | line {v : Visit σ} {decoded : Decoded} {before after : List Line} {line : Line}
      {scope : Scope} {out : Output} {e₁ e₂ : Engine σ} {expr target : String} {inner : Path}
      {n : Nat} :
      Visits host t options root e v →
      readText t options v.path = .ok decoded →
      Text.lines decoded.text = before ++ line :: after →
      Follows host t options v before scope out e₁ →
      LineKind.classify line.content = .ok (.directive (.includeFile expr)) →
      (EngineM.string host ⟨v.path, before.length⟩ "include" expr).run e₁ =
        (.ok target, e₂) →
      findInclude t options v.path target = .ok inner →
      IncludedFrom ⟨inner, n⟩ ⟨v.path, before.length⟩

end

variable {root : Path} {e : Engine σ}

theorem Visits.isChain (h : Visits host t options root e v) (n : Nat) :
    (v.trail.atLine n).IsChain (IncludedFrom host t options root e) := by
  induction h generalizing n with
  | refl => exact .singleton _
  | tail hv hopens ih =>
      cases hopens with
      | line hread hlines hbefore hstep hopen =>
          -- the frame of the including file is at the line that asked for the file
          obtain ⟨expr, hkind, hvalue⟩ := exists_of_processLine_includeFile hstep
          have hfound := (of_openInclude hopen).1
          exact .cons_cons (.line hv hread hlines hbefore hkind hvalue hfound) (ih _)

theorem Visits.getLast? (h : Visits host t options root e v) (n : Nat) :
    (v.trail.atLine n).getLast?.map Position.path = some root := by
  induction h generalizing n with
  | refl => rfl
  | tail hv hopens ih =>
      cases hopens with
      | line hread hlines hbefore hstep hopen => exact ih _

/-! ## The innermost frame -/

theorem Stuck.isOfLine {before : List Line} {content : String} {fault : Fault}
    (h : Stuck host t options v before content fault) : fault.isOfLine = true := by
  cases h with
  | step _ hstep => exact isOfLine_of_processLine hstep
  | opening _ _ hopen =>
      unfold openInclude findInclude at hopen
      split at hopen
      · rename_i hfind
        split at hfind
        · cases hfind
        · cases hfind
          cases hopen
          rfl
      · split at hopen
        · cases hopen
          rfl
        · cases hopen

theorem exists_of_singleton_completed {descend : Trail → Path → Output → RunM σ Output}
    {trail : Trail} {path : Path} {index : Nat} {line : Line} {scope scope' : Scope}
    {out out' : Output} {e e' : Engine σ}
    (h : (followLines host t options descend trail path index [line] scope out).run e =
      (.ok (.completed, scope', out'), e')) :
    ∃ step e₁, e.processLine host ⟨path, index⟩ line.content scope = (.ok step, scope', e₁) := by
  rw [run_followLines_singleton] at h
  rcases hstep : e.processLine host ⟨path, index⟩ line.content scope with ⟨r, scope₁, e₁⟩
  rw [hstep] at h
  cases r with
  | error fault => cases h
  | ok step =>
      refine ⟨step, e₁, ?_⟩
      cases step with
      | emit text =>
          cases h
          rfl
      | skip =>
          cases h
          rfl
      | exclude => cases h
      | includeFile target =>
          dsimp only at h
          split at h
          · cases h
          · split at h
            · cases h
            · cases h
              rfl

theorem openedAt_of_followLines {descend : Trail → Path → Output → RunM σ Output}
    {trail : Trail} {path : Path} {index : Nat} {lines : List Line} {scope scope' : Scope}
    {out out' : Output} {e e' : Engine σ}
    (h : (followLines host t options descend trail path index lines scope out).run e =
      (.ok (.completed, scope', out'), e')) :
    scope'.conditions.openedAt = openLines scope.conditions.openedAt index lines := by
  induction lines generalizing index scope out e with
  | nil =>
      cases h
      rfl
  | cons line rest ih =>
      rcases followLines_cons_cases h with ⟨-, hend⟩ | ⟨scope₁, out₁, e₁, hline, hrest⟩
      · exact absurd rfl (hend scope' out')
      · have hopened : scope₁.conditions.openedAt =
            openAfter scope.conditions.openedAt index line.content := by
          obtain ⟨step, e₂, hstep⟩ := exists_of_singleton_completed hline
          exact openedAt_of_processLine hstep
        rw [ih hrest, hopened]
        rfl

theorem exists_of_readText_error {path : Path} {fault : Fault}
    (h : readText t options path = .error fault) : ∃ cause, fault = .file cause path := by
  unfold readText at h
  split at h
  · cases h
    exact ⟨_, rfl⟩
  · split at h
    · cases h
      exact ⟨_, rfl⟩
    · cases h

/-- What a diagnostic says of the innermost file: a line that cannot be followed, the line of
the innermost block that is never closed, or that the file cannot be read. -/
theorem Fails.innermost (h : Fails host t options v d) :
    ∃ n, d.frames = ⟨v.path, n⟩ :: v.outer ∧
      ((∃ decoded before line after, readText t options v.path = .ok decoded ∧
          Text.lines decoded.text = before ++ line :: after ∧ before.length = n ∧
          d.line = some line.content ∧
          (d.fault.isOfLine = true ∧ Stuck host t options v before line.content d.fault ∨
            d.fault = .unclosedIf n ∧
              (openLines [] 0 (Text.lines decoded.text)).head? = some n)) ∨
        ∃ cause, d.fault = .file cause v.path ∧
          readText t options v.path = .error d.fault) := by
  cases h with
  | unreadable hread =>
      obtain ⟨cause, hcause⟩ := exists_of_readText_error hread
      exact ⟨0, rfl, .inr ⟨cause, hcause, hread⟩⟩
  | @line decoded before after line fault hread hlines hstuck =>
      exact ⟨before.length, rfl, .inl ⟨decoded, before, line, after, hread, hlines, rfl, rfl,
        .inl ⟨hstuck.isOfLine, hstuck⟩⟩⟩
  | @unclosed decoded scope out e n hread hlines hopen =>
      have hhead : (openLines [] 0 (Text.lines decoded.text)).head? = some n := by
        rw [← hopen, Conditions.innermostOpen_eq, openedAt_of_followLines hlines]
        rfl
      -- the line of an open block is a line of the file, so that its content is shown
      rcases exists_of_mem_openLines (List.mem_of_mem_head? hhead) with
        hnil | ⟨i, line, hi, hline, -⟩
      · cases hnil
      · obtain rfl : i = n := by omega
        obtain ⟨hlt, hget⟩ := List.getElem?_eq_some_iff.mp hline
        have hsplit : Text.lines decoded.text =
            (Text.lines decoded.text).take i ++ line :: (Text.lines decoded.text).drop (i + 1) := by
          rw [← hget, List.getElem_cons_drop, List.take_append_drop]
        have hshown : (Source.unclosed v.trail (Text.lines decoded.text) i).line =
            some line.content := by
          rw [Source.unclosed, hline]
          rfl
        exact ⟨i, rfl, .inl ⟨decoded, _, line, _, hread, hsplit,
          List.length_take_of_le (Nat.le_of_lt hlt), hshown, .inr ⟨rfl, hhead⟩⟩⟩

theorem exists_of_finish_error {text : String} (h : finish options root text = .error d) :
    options.removeComments = true ∧ ∃ err,
      Text.stripComments text options.strictness = .error err ∧
        d = ⟨.unterminatedComment err, none, [⟨root, 0⟩]⟩ := by
  unfold finish at h
  split at h
  · rename_i hremove
    split at h
    · cases h
    · rename_i err herr
      cases h
      exact ⟨hremove, err, herr, rfl⟩
  · cases h

/-- A run fails where one of its visits does, or when the comments of its output are removed. -/
theorem exists_of_preprocess_error {e' : Engine σ}
    (h : (preprocess host t options root).run e = (.error d, e')) :
    (∃ v, Visits host t options root e v ∧ Fails host t options v d) ∨
      ∃ text, finish options root text = .error d := by
  have hfiles := t.length_regularFiles_le
  have hfresh : (Visit.root root e).Fresh t := Visit.fresh_root root e
  have hprocess : process host t options (t.files.length + 1) (Trail.enter [] root) root {} =
      processWith host t options (descend host t options) (Visit.root root e).trail root {} :=
    process_eq hfresh.distinct hfresh.isNew (by omega) {}
  rw [preprocess, preprocessWithin, hprocess] at h
  rcases hrun : (processWith host t options (descend host t options)
    (Visit.root root e).trail root {}).run e with ⟨d₁ | ⟨fileEnd, bom, out⟩, e₁⟩
  · rw [run_bind_of_error hrun] at h
    cases h
    have hleft : t.regularFiles.length <
        t.files.length + 1 + (Visit.root root e).outer.length := by omega
    exact .inl (exists_fails hfresh hleft hrun)
  · rw [run_bind_of_ok hrun] at h
    dsimp only at h
    split at h
    · cases h
    · split at h
      · rename_i hfinish
        cases h
        exact .inr ⟨_, hfinish⟩
      · cases h

/-- A diagnostic of a run names the lines through which the run went: the last frame is of the
root, each frame is of a file that the line of the next includes, and the first shows the line
that cannot be followed or the innermost block that is never closed, unless a file cannot be
read or the comments of the output cannot be removed. -/
theorem preprocess_error_located {e' : Engine σ}
    (h : (preprocess host t options root).run e = (.error d, e')) :
    ∃ top outer, d.frames = top :: outer ∧
      d.frames.getLast?.map Position.path = some root ∧
      d.frames.IsChain (IncludedFrom host t options root e) ∧
      ((∃ decoded before line after, readText t options top.path = .ok decoded ∧
          Text.lines decoded.text = before ++ line :: after ∧ before.length = top.line ∧
          d.line = some line.content ∧
          ((d.fault.isOfLine = true ∧ ∃ v, Visits host t options root e v ∧
              v.path = top.path ∧ v.outer = outer ∧
              Stuck host t options v before line.content d.fault) ∨
            (d.fault = .unclosedIf top.line ∧
              (openLines [] 0 (Text.lines decoded.text)).head? = some top.line))) ∨
        (∃ cause, d.fault = .file cause top.path ∧
          readText t options top.path = .error d.fault) ∨
        (options.removeComments = true ∧ outer = [] ∧ ∃ text err,
          Text.stripComments text options.strictness = .error err ∧
          d.fault = .unterminatedComment err)) := by
  rcases exists_of_preprocess_error h with ⟨v, hv, hfails⟩ | ⟨text, hfinish⟩
  · obtain ⟨n, hframes, hinner⟩ := hfails.innermost
    have htrail : d.frames = v.trail.atLine n := hframes
    refine ⟨_, _, hframes, ?_, ?_, ?_⟩
    · rw [htrail]
      exact Visits.getLast? hv n
    · rw [htrail]
      exact Visits.isChain hv n
    · rcases hinner with
        ⟨decoded, before, line, after, hread, hlines, hn, hline, hcause⟩ | hread
      · refine .inl ⟨decoded, before, line, after, hread, hlines, hn, hline, ?_⟩
        rcases hcause with ⟨hfault, hstuck⟩ | hunclosed
        · exact .inl ⟨hfault, v, hv, rfl, rfl, hstuck⟩
        · exact .inr hunclosed
      · exact .inr (.inl hread)
  · -- the output belongs to the root, and to no line of it
    obtain ⟨hremove, err, herr, rfl⟩ := exists_of_finish_error hfinish
    exact ⟨⟨root, 0⟩, [], rfl, rfl, .singleton _,
      .inr (.inr ⟨hremove, rfl, text, err, herr, rfl⟩)⟩

/-- A file that includes another, which ends with a block open. -/
def openPart : FileTree where
  entries :=
    [(["main"], .file ("x\n//#include \"p\"\n".toList.map fun c => .ofNat c.toNat)),
      (["p"], .file ("//#ifdef A\n//#else\n//#ifdef B\n".toList.map fun c => .ofNat c.toNat))]

theorem preprocess_openPart_located :
    let host : Host Unit := .declining Unit
    let e : Engine Unit := ⟨⟨[], false⟩, (), none, #[]⟩
    let d : Diagnostic := ⟨.unclosedIf 2, some "//#ifdef B", [⟨⟨"p"⟩, 2⟩, ⟨⟨"main"⟩, 1⟩]⟩
    (preprocess host openPart {} ⟨"main"⟩).run e = (.error d, e) ∧
      d.frames.getLast?.map Position.path = some ⟨"main"⟩ ∧
      IncludedFrom host openPart {} ⟨"main"⟩ e ⟨⟨"p"⟩, 2⟩ ⟨⟨"main"⟩, 1⟩ := by
  intro host e d
  have hrun : (preprocess host openPart {} ⟨"main"⟩).run e = (.error d, e) := by
    with_unfolding_all rfl
  obtain ⟨-, -, -, hroot, hchain, -⟩ := preprocess_error_located hrun
  cases hchain with
  | cons_cons hpair _ => exact ⟨hrun, hroot, hpair⟩

end Source

end Preprocessor
