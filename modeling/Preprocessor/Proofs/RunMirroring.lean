/-
Files followed in another place.

What holds of a line holds of the lines of a file: followed in another place they write the same,
as long as the files they include do.  So do all files that are included while a file is open, when
that file gets a new content: none of them is the open file, and which file a target names does not
depend on what the files hold.
-/
import Preprocessor.Proofs.FileRewriting
import Preprocessor.Proofs.Inclusion
import Preprocessor.Proofs.LineMirroring
import Preprocessor.Proofs.LineOutcomes

namespace Preprocessor

variable {σ : Type}

/-! ## Runs of lines -/

namespace Source

variable {t t' : FileTree} {options : Options}
  {descend descend' : Trail → Path → Output → RunM σ Output} {trail trail' : Trail}
  {path path' : Path} {base : List Block}

/-- Files that are included in the first place are found in the second, and do the same. -/
def IncludesAlike (t t' : FileTree) (options : Options)
    (descend descend' : Trail → Path → Output → RunM σ Output) (trail trail' : Trail)
    (path path' : Path) : Prop :=
  ∀ n n' target included out,
    openInclude t options (trail.atLine n) path target = .ok included →
      openInclude t' options (trail'.atLine n') path' target = .ok included ∧
        Mirrors Engine.Agree (descend ((trail.atLine n).enter included) included out)
          (descend' ((trail'.atLine n').enter included) included out)

/-- `LinesAlike base r r'`: if lines end with the outcome `r`, others end with `r'`, in the same way
and with the same output, and what follows finds a scope over `base` and an engine that agrees. -/
def LinesAlike (base : List Block) (r r' : Except Diagnostic LinesEnd × Engine σ) : Prop :=
  ∀ fileEnd s out e, r = (.ok (fileEnd, s, out), e) →
    ∃ s' e', r' = (.ok (fileEnd, s', out), e') ∧ s.Over base s' ∧ e.Agree e'

section

variable {index index' : Nat} {s s' : Scope} {out : Output} {e e' : Engine σ}

theorem linesAlike_singleton (hbase : base.head?.all Block.active = true) {line : Line}
    (hreads : LineKind.readsSite line.content = true → path = path' ∧ index = index')
    (hincludes : (∃ expr, LineKind.classify line.content = .ok (.directive (.includeFile expr))) →
      IncludesAlike t t' options descend descend' trail trail' path path')
    (hs : s.Over base s') (he : e.Agree e') :
    LinesAlike base
      ((followLines (.declining σ) t options descend trail path index [line] s out).run e)
      ((followLines (.declining σ) t' options descend' trail' path' index' [line] s' out).run
        e') := by
  intro fileEnd s₁ out₁ e₁ h
  rw [run_followLines_singleton] at h ⊢
  rcases hline : e.processLine (.declining σ) ⟨path, index⟩ line.content s with ⟨r, s₂, e₂⟩
  rw [hline] at h
  cases r with
  | error fault => cases h
  | ok step =>
      have hsite : LineKind.readsSite line.content = true →
          (⟨path, index⟩ : Site) = ⟨path', index'⟩ := by
        intro hread
        obtain ⟨rfl, rfl⟩ := hreads hread
        rfl
      obtain ⟨s₂', e₂', hline', hs₂, he₂⟩ := repeats_of_processLine hbase hsite hs he hline
      rw [hline']
      cases step with
      | emit text =>
          cases h
          exact ⟨s₂', e₂', rfl, hs₂, he₂⟩
      | skip =>
          cases h
          exact ⟨s₂', e₂', rfl, hs₂, he₂⟩
      | exclude =>
          cases h
          exact ⟨s₂', e₂', rfl, hs₂, he₂⟩
      | includeFile target =>
          obtain ⟨expr, hkind, -⟩ := exists_of_processLine_includeFile hline
          dsimp only at h ⊢
          cases hopen : openInclude t options (trail.atLine index) path target with
          | error fault =>
              rw [hopen] at h
              cases h
          | ok included =>
              rw [hopen] at h
              obtain ⟨hopen', hdescend⟩ :=
                hincludes ⟨expr, hkind⟩ index index' target included out hopen
              rw [hopen']
              dsimp only at h ⊢
              rcases hd : (descend ((trail.atLine index).enter included) included out).run e₂
                with ⟨d | out₂, e₃⟩
              · rw [hd] at h
                cases h
              · rw [hd] at h
                obtain ⟨e₃', hd', he₃⟩ := hdescend e₂ e₂' he₂ out₂ e₃ hd
                rw [hd']
                cases h
                exact ⟨s₂', e₃', rfl, hs₂, he₃⟩

theorem LinesAlike.append {lines rest lines' rest' : List Line}
    (hlines : LinesAlike base
      ((followLines (.declining σ) t options descend trail path index lines s out).run e)
      ((followLines (.declining σ) t' options descend' trail' path' index' lines' s' out).run e'))
    (hrest : ∀ s₁ s₁' out₁ e₁ e₁',
      (followLines (.declining σ) t options descend trail path index lines s out).run e =
        (.ok (.completed, s₁, out₁), e₁) → s₁.Over base s₁' → e₁.Agree e₁' →
      LinesAlike base
        ((followLines (.declining σ) t options descend trail path (index + lines.length) rest s₁
          out₁).run e₁)
        ((followLines (.declining σ) t' options descend' trail' path' (index' + lines'.length)
          rest' s₁' out₁).run e₁')) :
    LinesAlike base
      ((followLines (.declining σ) t options descend trail path index (lines ++ rest) s out).run e)
      ((followLines (.declining σ) t' options descend' trail' path' index' (lines' ++ rest') s'
        out).run e') := by
  intro fileEnd s₂ out₂ e₂ h
  rw [run_followLines_append_eq] at h ⊢
  rcases hrun : (followLines (.declining σ) t options descend trail path index lines s out).run e
    with ⟨d | ⟨fileEnd₁, s₁, out₁⟩, e₁⟩
  · rw [hrun] at h
    cases h
  · obtain ⟨s₁', e₁', hrun', hs₁, he₁⟩ := hlines fileEnd₁ s₁ out₁ e₁ hrun
    rw [hrun] at h
    rw [hrun']
    cases fileEnd₁ with
    | excluded =>
        cases h
        exact ⟨s₁', e₁', rfl, hs₁, he₁⟩
    | completed => exact hrest s₁ s₁' out₁ e₁ e₁' hrun hs₁ he₁ fileEnd s₂ out₂ e₂ h

theorem linesAlike_of_over (hbase : base.head?.all Block.active = true) {lines : List Line}
    (hreads : ∀ line ∈ lines, LineKind.readsSite line.content = true →
      path = path' ∧ index = index')
    (hincludes : (∃ line ∈ lines, ∃ expr,
        LineKind.classify line.content = .ok (.directive (.includeFile expr))) →
      IncludesAlike t t' options descend descend' trail trail' path path')
    (hs : s.Over base s') (he : e.Agree e') :
    LinesAlike base
      ((followLines (.declining σ) t options descend trail path index lines s out).run e)
      ((followLines (.declining σ) t' options descend' trail' path' index' lines s' out).run
        e') := by
  induction lines generalizing index index' s s' out e e' with
  | nil =>
      intro fileEnd s₁ out₁ e₁ h
      cases h
      exact ⟨s', e', rfl, hs, he⟩
  | cons line rest ih =>
      have hfirst : LinesAlike base
          ((followLines (.declining σ) t options descend trail path index [line] s out).run e)
          ((followLines (.declining σ) t' options descend' trail' path' index' [line] s' out).run
            e') :=
        linesAlike_singleton hbase (hreads line List.mem_cons_self)
          (fun hkind => hincludes ⟨line, List.mem_cons_self, hkind⟩) hs he
      refine hfirst.append fun s₁ s₁' out₁ e₁ e₁' _ hs₁ he₁ => ?_
      refine ih (fun line' hline' hread => ?_) ?_ hs₁ he₁
      · obtain ⟨hpath, hindex⟩ := hreads line' (List.mem_cons_of_mem _ hline') hread
        exact ⟨hpath, by rw [hindex]⟩
      · rintro ⟨line', hline', hkind⟩
        exact hincludes ⟨line', List.mem_cons_of_mem _ hline', hkind⟩

end

/-! ## Whole files -/

section

variable {host : Host σ} {decoded : Decoded} {out out' : Output} {e e' : Engine σ}
  {fileEnd : FileEnd} {bom : Bool}

/-- A file is processed if its lines are followed, to an end that closes all blocks or to one that
excludes the rest. -/
theorem run_processWith_iff (hread : readText t options path = .ok decoded) :
    (processWith host t options descend trail path out).run e =
        (.ok (fileEnd, bom, out'), e') ↔
      bom = decoded.bom ∧ ∃ scope,
        (followLines host t options descend trail path 0 (Text.lines decoded.text) {} out).run e =
            (.ok (fileEnd, scope, out'), e') ∧
          (fileEnd = .completed → scope.conditions.blocks = []) := by
  rw [processWith, hread]
  dsimp only
  rcases hrun : (followLines host t options descend trail path 0 (Text.lines decoded.text) {}
    out).run e with ⟨d | ⟨fileEnd₁, scope₁, out₁⟩, e₁⟩
  · rw [run_bind_of_error hrun]
    constructor
    · intro h
      cases h
    · rintro ⟨-, scope, h, -⟩
      cases h
  · rw [run_bind_of_ok hrun]
    rcases scope₁ with ⟨⟨blocks, excluded⟩, outputOn, commentNext, emitted⟩
    cases fileEnd₁ with
    | excluded =>
        constructor
        · intro h
          cases h
          refine ⟨rfl, _, rfl, ?_⟩
          intro hend
          cases hend
        · rintro ⟨rfl, scope, h, -⟩
          cases h
          rfl
    | completed =>
        cases blocks with
        | nil =>
            constructor
            · intro h
              cases h
              exact ⟨rfl, _, rfl, fun _ => rfl⟩
            · rintro ⟨rfl, scope, h, -⟩
              cases h
              rfl
        | cons top rest =>
            constructor
            · intro h
              cases h
            · rintro ⟨-, scope, h, hclosed⟩
              cases h
              cases hclosed rfl

theorem exists_of_descendWithin {room : Nat}
    (h : (descendWithin host t options room trail path out).run e = (.ok out', e')) :
    ∃ fileEnd bom, (process host t options room trail path out).run e =
      (.ok (fileEnd, bom, out'), e') := by
  unfold descendWithin at h
  rcases hrun : (process host t options room trail path out).run e with
    ⟨d | ⟨fileEnd, bom, out₁⟩, e₁⟩
  · rw [run_bind_of_error hrun] at h
    cases h
  · rw [run_bind_of_ok hrun] at h
    cases h
    exact ⟨fileEnd, bom, rfl⟩

theorem process_root (host : Host σ) (t : FileTree) (options : Options) (root : Path)
    (out : Output) :
    process host t options (t.files.length + 1) (Trail.enter [] root) root out =
      processWith host t options (Source.descend host t options) (Trail.enter [] root) root
        out := by
  have hroom : t.regularFiles.length < t.files.length + 1 + ([] : Trail).length :=
    Nat.lt_succ_of_le t.length_regularFiles_le
  exact process_eq .nil rfl hroom out

theorem run_preprocess_text_iff {text : String} {outname : Option String} :
    (preprocess host t options path).run e = (.ok (.text text bom outname), e') ↔
      ∃ fileEnd out, (process host t options (t.files.length + 1) (Trail.enter [] path) path
          {}).run e = (.ok (fileEnd, bom, out), e') ∧
        ¬(fileEnd = .excluded ∧ out.emitted = 0) ∧ finish options path out.text = .ok text ∧
        outname = e'.outname := by
  unfold preprocess preprocessWithin
  rcases hrun : (process host t options (t.files.length + 1) (Trail.enter [] path) path {}).run e
    with ⟨d | ⟨fileEnd₁, bom₁, out₁⟩, e₁⟩
  · rw [run_bind_of_error hrun]
    constructor
    · intro h
      cases h
    · rintro ⟨fileEnd, out, h, -⟩
      cases h
  · rw [run_bind_of_ok hrun]
    dsimp only
    by_cases hnothing : fileEnd₁ = .excluded ∧ out₁.emitted = 0
    · rw [if_pos hnothing]
      constructor
      · intro h
        cases h
      · rintro ⟨fileEnd, out, h, hwritten, -⟩
        cases h
        exact absurd hnothing hwritten
    · rw [if_neg hnothing]
      cases hfinish : finish options path out₁.text with
      | error d =>
          constructor
          · intro h
            cases h
          · rintro ⟨fileEnd, out, h, -, hfinish', -⟩
            cases h
            rw [hfinish] at hfinish'
            cases hfinish'
      | ok text₁ =>
          constructor
          · intro h
            cases h
            exact ⟨fileEnd₁, out₁, rfl, hnothing, hfinish, rfl⟩
          · rintro ⟨fileEnd, out, h, -, hfinish', rfl⟩
            cases h
            rw [hfinish] at hfinish'
            cases hfinish'
            rfl

end

/-! ## A tree in which a file has a new content -/

section

variable {root : Path} {bytes : List UInt8}

theorem openInclude_congr (h : FileTree.SameOutline t t')
    (htrail : trail'.identities t' = trail.identities t) (current : Path) (target : String) :
    openInclude t' options trail' current target = openInclude t options trail current target := by
  have hfile : t'.isFile = t.isFile := funext h.isFile
  have hfind : findInclude t' options current target = findInclude t options current target := by
    rw [findInclude, findInclude, hfile]
  have hholds (included : Path) : trail'.holds t' included = trail.holds t included := by
    rw [Bool.eq_iff_iff, Trail.holds_iff, Trail.holds_iff, htrail, h.canonical]
  simp only [openInclude, hfind, hholds]

theorem readText_congr (h : FileTree.Rewrites t t' root bytes)
    (hpath : t.canonical path ≠ t.canonical root) :
    readText t' options path = readText t options path := by
  rw [readText, readText, h.others path hpath]

theorem includesAlike_of_process (h : FileTree.Rewrites t t' root bytes) {room : Nat}
    (hprocess : ∀ {outer outer' : Trail} {path : Path} (out : Output),
      outer'.identities t' = outer.identities t → t.canonical root ∈ outer.identities t →
      outer.holds t path = false →
      Mirrors Engine.Agree (process (.declining σ) t options room (outer.enter path) path out)
        (process (.declining σ) t' options room (outer'.enter path) path out))
    (htrail : trail'.identities t' = trail.identities t)
    (hroot : t.canonical root ∈ trail.identities t) :
    IncludesAlike t t' options (descendWithin (.declining σ) t options room)
      (descendWithin (.declining σ) t' options room) trail trail' path path := by
  intro n n' target included out hopen
  have htrail' : (trail'.atLine n').identities t' = (trail.atLine n).identities t := by
    rw [Trail.identities_atLine, Trail.identities_atLine, htrail]
  rw [openInclude_congr h.outline htrail']
  refine ⟨hopen, (hprocess out htrail' ?_ (of_openInclude hopen).2).bind fun ⟨_, _, out₁⟩ => ?_⟩
  · rw [Trail.identities_atLine]
    exact hroot
  · exact .pure out₁

/-- While a file is open, no other depends on its content. -/
theorem mirrors_process (h : FileTree.Rewrites t t' root bytes) {room : Nat}
    {outer outer' : Trail} {path : Path} (out : Output)
    (houter : outer'.identities t' = outer.identities t)
    (hroot : t.canonical root ∈ outer.identities t) (hnew : outer.holds t path = false) :
    Mirrors Engine.Agree (process (.declining σ) t options room (outer.enter path) path out)
      (process (.declining σ) t' options room (outer'.enter path) path out) := by
  induction room generalizing outer outer' path out with
  | zero => exact .throw _
  | succ room ih =>
      have hpath : t.canonical path ≠ t.canonical root := by
        intro heq
        rw [← heq] at hroot
        rw [Trail.holds_iff.mpr hroot] at hnew
        cases hnew
      have hread : readText t' options path = readText t options path := readText_congr h hpath
      rw [process_succ, process_succ]
      cases hdecoded : readText t options path with
      | error fault =>
          rw [processWith, hdecoded]
          exact .throw _
      | ok decoded =>
          intro e e' he r e₁ hrun
          rcases r with ⟨fileEnd, bom, out₁⟩
          obtain ⟨rfl, s₁, hlines, hclosed⟩ := (run_processWith_iff hdecoded).mp hrun
          have hincludes : IncludesAlike t t' options (descendWithin (.declining σ) t options room)
              (descendWithin (.declining σ) t' options room) (outer.enter path)
              (outer'.enter path) path path := by
            refine includesAlike_of_process h ih ?_ (List.mem_cons_of_mem _ hroot)
            exact congrArg₂ List.cons (h.outline.canonical path) houter
          have hstart : Scope.Over [] {} {} := .start (s := {}) rfl rfl rfl
          obtain ⟨s₁', e₁', hlines', hs₁, he₁⟩ := linesAlike_of_over rfl
            (fun _ _ _ => ⟨rfl, rfl⟩) (fun _ => hincludes) hstart he fileEnd s₁ out₁ e₁ hlines
          refine ⟨e₁', (run_processWith_iff (hread.trans hdecoded)).mpr ?_, he₁⟩
          exact ⟨rfl, s₁', hlines', fun hend => hs₁.blocks_eq (hclosed hend)⟩

end

end Source

end Preprocessor
