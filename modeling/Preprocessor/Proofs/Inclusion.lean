/-
Which files a run begins, and that it ends.

A run begins its root and, at each line that asks for one, an included file; a visit is such a
beginning.  A file is begun only if it is a regular file that is not open, so the open files of
every visit are distinct regular files and there are never more of them than the tree has.  The
room that bounds the recursion is therefore never used up: with any more of it a run is the
same, and processing obeys its recursion as if there were no bound.

Only the root is begun without a look at what it is.  If it cannot be read, it is the one file that
the run ever begins.  Then one file is open although the tree may have no regular file at all, so
that the bound by the number of files is for roots that can be read.
-/
import Mathlib.Logic.Relation
import Preprocessor.Proofs.OpenFiles

namespace Preprocessor

namespace Source

variable {σ : Type} (host : Host σ) (t : FileTree) (options : Options)

/-! ## What an inclusion needs -/

theorem isFile_of_findInclude {t : FileTree} {options : Options} {current path : Path}
    {target : String} (h : findInclude t options current target = .ok path) :
    t.isFile path = true := by
  unfold findInclude at h
  split at h
  · rename_i found hfound
    cases h
    exact List.find?_some hfound
  · cases h

theorem of_openInclude {t : FileTree} {options : Options} {trail : Trail} {current path : Path}
    {target : String} (h : openInclude t options trail current target = .ok path) :
    findInclude t options current target = .ok path ∧ trail.holds t path = false := by
  unfold openInclude at h
  split at h
  · cases h
  · rename_i found hfound
    split at h
    · cases h
    · rename_i hheld
      cases h
      exact ⟨hfound, Bool.not_eq_true _ ▸ hheld⟩

theorem isFile_of_readText {t : FileTree} {options : Options} {path : Path}
    {decoded : Decoded} (h : readText t options path = .ok decoded) : t.isFile path = true := by
  unfold readText at h
  split at h
  · cases h
  · rename_i bytes hbytes
    exact FileTree.isFile_of_read hbytes

/-! ## The recursion without its bound -/

/-- Processes an included file with a bound on the depth of inclusion. -/
def descendWithin (room : Nat) (trail : Trail) (path : Path) (out : Output) : RunM σ Output := do
  let (_, _, out) ← process host t options room trail path out
  return out

theorem process_succ (room : Nat) (trail : Trail) (path : Path) (out : Output) :
    process host t options (room + 1) trail path out =
      processWith host t options (descendWithin host t options room) trail path out := rfl

variable {host t options}

theorem followLines_congr {descend descend' : Trail → Path → Output → RunM σ Output}
    {trail : Trail} {path : Path} {index : Nat} {lines : List Line} {scope : Scope}
    {out : Output}
    (h : ∀ n target included out, openInclude t options (trail.atLine n) path target =
      .ok included → descend ((trail.atLine n).enter included) included out =
        descend' ((trail.atLine n).enter included) included out) :
    followLines host t options descend trail path index lines scope out =
      followLines host t options descend' trail path index lines scope out := by
  induction lines generalizing trail index scope out with
  | nil => rfl
  | cons line rest ih =>
      have hrest {index scope out} :
          followLines host t options descend (trail.atLine index) path (index + 1) rest scope out
            = followLines host t options descend' (trail.atLine index) path (index + 1) rest
              scope out := by
        -- the rest starts from the line reached, which its own lines replace
        refine ih fun n target included out hopen => ?_
        rw [Trail.atLine_atLine] at hopen ⊢
        exact h n target included out hopen
      unfold followLines
      dsimp only
      congr 1
      funext ⟨step, scope⟩
      cases step with
      | emit text => exact hrest
      | skip => exact hrest
      | exclude => rfl
      | includeFile target =>
          dsimp only
          split
          · rfl
          · rename_i included hopen
            rw [h index target included out hopen]
            congr 1
            funext out
            exact hrest

theorem followLines_atLine (descend : Trail → Path → Output → RunM σ Output) (trail : Trail)
    (path : Path) (m index : Nat) (lines : List Line) (scope : Scope) (out : Output) :
    followLines host t options descend (trail.atLine m) path index lines scope out =
      followLines host t options descend trail path index lines scope out := by
  cases lines with
  | nil => rfl
  | cons line rest => rw [followLines, followLines, Trail.atLine_atLine]

theorem run_followLine_of_ok {site : Site} {content : String} {scope scope' : Scope}
    {e e' : Engine σ} {step : Step} (trail : Trail)
    (h : e.processLine host site content scope = (.ok step, scope', e')) :
    (followLine host trail site content scope).run e = (.ok (step, scope'), e') := by
  rw [followLine, ExceptT.run_mk, h]

theorem run_followLine_of_error {site : Site} {content : String} {scope scope' : Scope}
    {e e' : Engine σ} {fault : Fault} (trail : Trail)
    (h : e.processLine host site content scope = (.error fault, scope', e')) :
    (followLine host trail site content scope).run e =
      (.error ⟨fault, some content, trail⟩, e') := by
  rw [followLine, ExceptT.run_mk, h]
  rfl

theorem run_followLines_singleton (descend : Trail → Path → Output → RunM σ Output)
    (trail : Trail) (path : Path) (index : Nat) (line : Line) (scope : Scope) (out : Output)
    (e : Engine σ) :
    (followLines host t options descend trail path index [line] scope out).run e =
      match e.processLine host ⟨path, index⟩ line.content scope with
      | (.error fault, _, e₁) => (.error ⟨fault, some line.content, trail.atLine index⟩, e₁)
      | (.ok .exclude, scope₁, e₁) => (.ok (.excluded, scope₁, out), e₁)
      | (.ok (.includeFile target), scope₁, e₁) =>
        match openInclude t options (trail.atLine index) path target with
        | .error fault => (.error ⟨fault, some line.content, trail.atLine index⟩, e₁)
        | .ok included =>
          match (descend ((trail.atLine index).enter included) included out).run e₁ with
          | (.error d, e₂) => (.error d, e₂)
          | (.ok out₁, e₂) => (.ok (.completed, scope₁, out₁), e₂)
      | (.ok step, scope₁, e₁) =>
        (.ok (.completed, scope₁, write options line out step), e₁) := by
  rw [followLines]
  rcases hline : e.processLine host ⟨path, index⟩ line.content scope with ⟨r, scope₁, e₁⟩
  cases r with
  | error fault => rw [run_bind_of_error (run_followLine_of_error _ hline)]
  | ok step =>
      rw [run_bind_of_ok (run_followLine_of_ok _ hline)]
      cases step with
      | emit text => rfl
      | skip => rfl
      | exclude => rfl
      | includeFile target =>
          dsimp only
          cases openInclude t options (trail.atLine index) path target with
          | error fault => rfl
          | ok included =>
              dsimp only
              rcases hd : (descend ((trail.atLine index).enter included) included out).run e₁
                with ⟨r, e₂⟩
              cases r with
              | error d => rw [run_bind_of_error hd]
              | ok out₁ =>
                  rw [run_bind_of_ok hd]
                  rfl

theorem run_followLines_cons (descend : Trail → Path → Output → RunM σ Output) (trail : Trail)
    (path : Path) (index : Nat) (line : Line) (rest : List Line) (scope : Scope)
    (out : Output) (e : Engine σ) :
    (followLines host t options descend trail path index (line :: rest) scope out).run e =
      match (followLines host t options descend trail path index [line] scope out).run e with
      | (.ok (.completed, scope₁, out₁), e₁) =>
        (followLines host t options descend trail path (index + 1) rest scope₁ out₁).run e₁
      | (r, e₁) => (r, e₁) := by
  rw [followLines, followLines]
  simp only [followLines_atLine]
  rcases hrun : (followLine host (trail.atLine index) ⟨path, index⟩ line.content scope).run e
    with ⟨r, e₁⟩
  cases r with
  | error fault => rw [run_bind_of_error hrun, run_bind_of_error hrun]
  | ok next =>
      rcases next with ⟨step, scope₁⟩
      rw [run_bind_of_ok hrun, run_bind_of_ok hrun]
      cases step with
      | emit text => rfl
      | skip => rfl
      | exclude => rfl
      | includeFile target =>
          dsimp only
          cases openInclude t options (trail.atLine index) path target with
          | error fault => rfl
          | ok included =>
              dsimp only
              rcases hd : (descend ((trail.atLine index).enter included) included out).run e₁
                with ⟨r, e₂⟩
              cases r with
              | error d => rw [run_bind_of_error hd, run_bind_of_error hd]
              | ok out₁ =>
                  rw [run_bind_of_ok hd, run_bind_of_ok hd]
                  rfl

/-- Lines end at the first of them, or that one is followed and they end as the others do. -/
theorem followLines_cons_cases {descend : Trail → Path → Output → RunM σ Output}
    {trail : Trail} {path : Path} {index : Nat} {line : Line} {rest : List Line}
    {scope : Scope} {out : Output} {e e' : Engine σ} {r : Except Diagnostic LinesEnd}
    (h : (followLines host t options descend trail path index (line :: rest) scope out).run e =
      (r, e')) :
    ((followLines host t options descend trail path index [line] scope out).run e = (r, e') ∧
        ∀ scope' out', r ≠ .ok (.completed, scope', out')) ∨
      ∃ scope₁ out₁ e₁,
        (followLines host t options descend trail path index [line] scope out).run e =
            (.ok (.completed, scope₁, out₁), e₁) ∧
          (followLines host t options descend trail path (index + 1) rest scope₁ out₁).run e₁ =
            (r, e') := by
  rw [run_followLines_cons] at h
  generalize (followLines host t options descend trail path index [line] scope out).run e
    = first at h ⊢
  rcases first with ⟨d | ⟨fileEnd, scope₁, out₁⟩, e₁⟩
  · cases h
    exact .inl ⟨rfl, nofun⟩
  · cases fileEnd with
    | excluded =>
        cases h
        exact .inl ⟨rfl, nofun⟩
    | completed => exact .inr ⟨scope₁, out₁, e₁, rfl, h⟩

theorem run_followLines_append_eq (descend : Trail → Path → Output → RunM σ Output)
    (trail : Trail) (path : Path) (index : Nat) (before rest : List Line) (scope : Scope)
    (out : Output) (e : Engine σ) :
    (followLines host t options descend trail path index (before ++ rest) scope out).run e =
      match (followLines host t options descend trail path index before scope out).run e with
      | (.ok (.completed, scope₁, out₁), e₁) =>
        (followLines host t options descend trail path (index + before.length) rest scope₁
          out₁).run e₁
      | (r, e₁) => (r, e₁) := by
  induction before generalizing index scope out e with
  | nil => rfl
  | cons line before ih =>
      have hindex : index + (line :: before).length = index + 1 + before.length := by
        rw [List.length_cons]
        omega
      rw [List.cons_append, run_followLines_cons, run_followLines_cons descend trail path index line
        before, hindex]
      rcases (followLines host t options descend trail path index [line] scope out).run e with
        ⟨d | ⟨fileEnd, scope₁, out₁⟩, e₁⟩
      · rfl
      · cases fileEnd with
        | excluded => rfl
        | completed => exact ih (index + 1) scope₁ out₁ e₁

theorem run_followLines_append {descend : Trail → Path → Output → RunM σ Output}
    {trail : Trail} {path : Path} {index : Nat} {before : List Line} (rest : List Line)
    {scope scope' : Scope} {out out' : Output} {e e' : Engine σ}
    (h : (followLines host t options descend trail path index before scope out).run e =
      (.ok (.completed, scope', out'), e')) :
    (followLines host t options descend trail path index (before ++ rest) scope out).run e =
      (followLines host t options descend trail path (index + before.length) rest scope'
        out').run e' := by
  rw [run_followLines_append_eq, h]

/-- More room than there are files left to open makes no difference. -/
theorem process_stable {outer : Trail} {path : Path} (hopen : outer.Distinct t)
    (hnew : outer.holds t path = false) {room room' : Nat}
    (hroom : t.regularFiles.length < room + outer.length)
    (hroom' : t.regularFiles.length < room' + outer.length) (out : Output) :
    process host t options room (outer.enter path) path out =
      process host t options room' (outer.enter path) path out := by
  induction room generalizing outer path room' out with
  | zero =>
      have hle := hopen.length_le
      omega
  | succ room ih =>
      cases room' with
      | zero =>
          have hle := hopen.length_le
          omega
      | succ room' =>
          rw [process_succ, process_succ, processWith, processWith]
          cases hread : readText t options path with
          | error fault => rfl
          | ok decoded =>
              have hall := hopen.enter (isFile_of_readText hread) hnew
              dsimp only
              congr 1
              refine followLines_congr fun n target included out hincluded => ?_
              -- the included file is one deeper and has one unit of room less
              have hdeeper : ((outer.enter path).atLine n).length = outer.length + 1 :=
                Trail.length_atLine _ n
              have hless : t.regularFiles.length <
                  room + ((outer.enter path).atLine n).length := by omega
              have hless' : t.regularFiles.length <
                  room' + ((outer.enter path).atLine n).length := by omega
              rw [descendWithin, descendWithin,
                ih (hall.atLine n) (of_openInclude hincluded).2 hless hless']

/-- Processes an included file, with room for all files of the tree. -/
def descend (host : Host σ) (t : FileTree) (options : Options) :
    Trail → Path → Output → RunM σ Output :=
  descendWithin host t options (t.files.length + 1)

/-- Processing obeys its recursion as if nothing bounded it. -/
theorem process_eq {outer : Trail} {path : Path} (hopen : outer.Distinct t)
    (hnew : outer.holds t path = false) {room : Nat}
    (hroom : t.regularFiles.length < room + outer.length) (out : Output) :
    process host t options room (outer.enter path) path out =
      processWith host t options (descend host t options) (outer.enter path) path out := by
  have hfiles := t.length_regularFiles_le
  have hroom' : t.regularFiles.length < t.files.length + 1 + 1 + outer.length := by omega
  rw [process_stable hopen hnew hroom hroom' out]
  exact process_succ host t options _ _ _ _

/-! ## Visits -/

/-- The beginning of a file in a run: the files around it with the lines they are at, what was
written before, and the engine. -/
structure Visit (σ : Type) where
  outer : Trail
  path : Path
  out : Output
  engine : Engine σ

namespace Visit

/-- The open files from the beginning on. -/
def trail (v : Visit σ) : Trail :=
  v.outer.enter v.path

def root (path : Path) (e : Engine σ) : Visit σ :=
  ⟨[], path, {}, e⟩

end Visit

/-- The first lines of a visited file are all followed, and lead to a scope, an output and an
engine. -/
def Follows (host : Host σ) (t : FileTree) (options : Options) (v : Visit σ)
    (before : List Line) (scope : Scope) (out : Output) (e : Engine σ) : Prop :=
  (followLines host t options (descend host t options) v.trail v.path 0 before {} v.out).run
    v.engine = (.ok (.completed, scope, out), e)

/-- `Opens v w`: a line of the file of `v`, reached in its run, begins `w`. -/
inductive Opens (host : Host σ) (t : FileTree) (options : Options) :
    Visit σ → Visit σ → Prop
  | line {v : Visit σ} {decoded : Decoded} {before after : List Line} {line : Line}
      {scope scope' : Scope} {out : Output} {e e' : Engine σ} {target : String}
      {included : Path} :
      readText t options v.path = .ok decoded →
      Text.lines decoded.text = before ++ line :: after →
      Follows host t options v before scope out e →
      e.processLine host ⟨v.path, before.length⟩ line.content scope =
        (.ok (.includeFile target), scope', e') →
      openInclude t options (v.trail.atLine before.length) v.path target = .ok included →
      Opens host t options v ⟨v.trail.atLine before.length, included, out, e'⟩

/-- A visit that a run makes. -/
abbrev Visits (host : Host σ) (t : FileTree) (options : Options) (path : Path)
    (e : Engine σ) : Visit σ → Prop :=
  Relation.ReflTransGen (Opens host t options) (.root path e)

/-- A visit begins a file that is not open, inside distinct regular files. -/
structure Visit.Fresh (v : Visit σ) (t : FileTree) : Prop where
  distinct : v.outer.Distinct t
  isNew : v.outer.holds t v.path = false

theorem Visit.fresh_root (path : Path) (e : Engine σ) : (Visit.root path e).Fresh t :=
  ⟨.nil, rfl⟩

theorem Opens.fresh {v w : Visit σ} (h : Opens host t options v w) (hv : v.Fresh t) :
    w.Fresh t := by
  cases h with
  | line hread _ _ _ hopen =>
      have hall := hv.distinct.enter (isFile_of_readText hread) hv.isNew
      exact ⟨hall.atLine _, (of_openInclude hopen).2⟩

theorem Opens.length_outer {v w : Visit σ} (h : Opens host t options v w) :
    w.outer.length = v.outer.length + 1 := by
  cases h with
  | line => exact Trail.length_atLine v.trail _

theorem Visits.fresh {path : Path} {e : Engine σ} {v : Visit σ}
    (h : Visits host t options path e v) : v.Fresh t := by
  induction h with
  | refl => exact Visit.fresh_root path e
  | tail _ hopen ih => exact hopen.fresh ih

theorem Visits.isFile {path : Path} {e : Engine σ} {v : Visit σ}
    (h : Visits host t options path e v) : v = .root path e ∨ t.isFile v.path = true := by
  cases h with
  | refl => exact .inl rfl
  | tail _ hopen =>
      cases hopen with
      | line _ _ _ _ hincluded =>
          exact .inr (isFile_of_findInclude (of_openInclude hincluded).1)

theorem Follows.nil (v : Visit σ) : Follows host t options v [] {} v.out v.engine :=
  rfl

theorem Follows.snoc {v : Visit σ} {before : List Line} {line : Line} {scope scope' : Scope}
    {out out' : Output} {e e' : Engine σ} (h : Follows host t options v before scope out e)
    (hline : (followLines host t options (descend host t options) v.trail v.path
      before.length [line] scope out).run e = (.ok (.completed, scope', out'), e')) :
    Follows host t options v (before ++ [line]) scope' out' e' := by
  unfold Follows
  rw [run_followLines_append [line] h, Nat.zero_add]
  exact hline

theorem run_followLines_singleton_of_opens {v : Visit σ} {decoded : Decoded}
    {descend' : Trail → Path → Output → RunM σ Output}
    (hread : readText t options v.path = .ok decoded)
    (hdescend : ∀ w, Opens host t options v w → (descend' w.trail w.path w.out).run w.engine =
      (descend host t options w.trail w.path w.out).run w.engine)
    {before after : List Line} {line : Line} {scope : Scope} {out : Output} {e : Engine σ}
    (hlines : Text.lines decoded.text = before ++ line :: after)
    (hbefore : Follows host t options v before scope out e) :
    (followLines host t options descend' v.trail v.path before.length [line] scope out).run e =
      (followLines host t options (descend host t options) v.trail v.path before.length [line]
        scope out).run e := by
  rw [run_followLines_singleton, run_followLines_singleton]
  rcases hstep : e.processLine host ⟨v.path, before.length⟩ line.content scope with
    ⟨r, scope₁, e₁⟩
  cases r with
  | error fault => rfl
  | ok step =>
      cases step with
      | emit text => rfl
      | skip => rfl
      | exclude => rfl
      | includeFile target =>
          dsimp only
          cases hopen : openInclude t options (v.trail.atLine before.length) v.path target with
          | error fault => rfl
          | ok included =>
              have hw := hdescend _ (.line hread hlines hbefore hstep hopen)
              rw [Visit.trail] at hw
              dsimp only at hw ⊢
              rw [hw]

/-- The visits that a file opens are all that the processing of its lines depends on. -/
theorem run_followLines_of_opens {v : Visit σ} {decoded : Decoded}
    {descend' : Trail → Path → Output → RunM σ Output}
    (hread : readText t options v.path = .ok decoded)
    (hdescend : ∀ w, Opens host t options v w → (descend' w.trail w.path w.out).run w.engine =
      (descend host t options w.trail w.path w.out).run w.engine)
    {before rest : List Line} {scope : Scope} {out : Output} {e : Engine σ}
    (hlines : Text.lines decoded.text = before ++ rest)
    (hbefore : Follows host t options v before scope out e) :
    (followLines host t options descend' v.trail v.path before.length rest scope out).run e =
      (followLines host t options (descend host t options) v.trail v.path before.length rest
        scope out).run e := by
  -- the lines before grow by each one that is followed, so that a visit opened is one of `v`
  induction rest generalizing before scope out e with
  | nil => rfl
  | cons line rest ih =>
      rw [run_followLines_cons descend', run_followLines_cons (descend host t options),
        run_followLines_singleton_of_opens hread hdescend hlines hbefore]
      rcases hline : (followLines host t options (descend host t options) v.trail v.path
        before.length [line] scope out).run e with ⟨d | ⟨fileEnd, scope₁, out₁⟩, e₁⟩
      · rfl
      · cases fileEnd with
        | excluded => rfl
        | completed =>
            have hlines' : Text.lines decoded.text = (before ++ [line]) ++ rest := by
              rw [hlines, List.append_assoc]
              rfl
            have hrest := ih hlines' (hbefore.snoc hline)
            rwa [List.length_append, List.length_singleton] at hrest

theorem run_processWith_of_opens {v : Visit σ}
    {descend' : Trail → Path → Output → RunM σ Output}
    (hdescend : ∀ w, Opens host t options v w → (descend' w.trail w.path w.out).run w.engine =
      (descend host t options w.trail w.path w.out).run w.engine) :
    (processWith host t options descend' v.trail v.path v.out).run v.engine =
      (processWith host t options (descend host t options) v.trail v.path v.out).run
        v.engine := by
  rw [processWith, processWith]
  cases hread : readText t options v.path with
  | error fault => rfl
  | ok decoded =>
      have hlines := run_followLines_of_opens hread hdescend (List.nil_append _).symm (.nil v)
      dsimp only
      rcases hrun : (followLines host t options (descend host t options) v.trail v.path 0
        (Text.lines decoded.text) {} v.out).run v.engine with ⟨r, e₁⟩
      rw [List.length_nil, hrun] at hlines
      cases r with
      | error d => rw [run_bind_of_error hlines, run_bind_of_error hrun]
      | ok next => rw [run_bind_of_ok hlines, run_bind_of_ok hrun]

/-! ## Termination -/

theorem exists_of_not_isFile {path : Path} (h : t.isFile path = false) :
    ∃ err, t.read path = .error err := by
  cases hread : t.read path with
  | error err => exact ⟨err, rfl⟩
  | ok bytes =>
      rw [FileTree.isFile_of_read hread] at h
      cases h

theorem Visits.nodup_identities {path : Path} {e : Engine σ} {v : Visit σ}
    (h : Visits host t options path e v) (n : Nat) :
    ((v.trail.atLine n).identities t).Nodup := by
  rw [Trail.identities_atLine]
  refine List.nodup_cons.mpr ⟨fun hmem => ?_, h.fresh.distinct.nodup⟩
  have hnew := h.fresh.isNew
  rw [Trail.holds_iff.mpr hmem] at hnew
  cases hnew

/-- Only the root is begun without a look at what it is. -/
theorem Visits.distinct_or_root {path : Path} {e : Engine σ} {v : Visit σ}
    (h : Visits host t options path e v) :
    v.trail.Distinct t ∨ v = .root path e ∧ ∃ err, t.read path = .error err := by
  cases hfile : t.isFile v.path with
  | true => exact .inl (h.fresh.distinct.enter hfile h.fresh.isNew)
  | false =>
      rcases h.isFile with rfl | hfile'
      · exact .inr ⟨rfl, exists_of_not_isFile hfile⟩
      · rw [hfile] at hfile'
        cases hfile'

/-- A root that cannot be read is all that a run gets to. -/
theorem run_preprocess_of_read {root : Path} {err : OsError} (h : t.read root = .error err)
    (e : Engine σ) :
    (preprocess host t options root).run e =
      (.error ⟨.file (.read err) root, none, [⟨root, 0⟩]⟩, e) := by
  have hread : readText t options root = .error (.file (.read err) root) := by
    rw [readText, h]
  refine run_bind_of_error ?_
  rw [process_succ, processWith, hread]
  rfl

/-- At every moment of a run the open files are pairwise distinct regular files and no more than
the tree has, unless the run has only begun and its root cannot be read, which is then its error;
the files begun are all that the run looks into; and the run has a result, which no bound on the
depth above the number of regular files changes. -/
theorem preprocess_terminates (host : Host σ) (t : FileTree) (options : Options) (root : Path)
    (e : Engine σ) :
    (∀ v, Visits host t options root e v →
      (∀ n, ((v.trail.atLine n).identities t).Nodup ∧
        (((∀ p ∈ v.trail.atLine n, t.isFile p.path = true) ∧
            (v.trail.atLine n).length ≤ t.regularFiles.length) ∨
          v = .root root e ∧ ∃ err, t.read root = .error err ∧
            (preprocess host t options root).run e =
              (.error ⟨.file (.read err) root, none, [⟨root, 0⟩]⟩, e))) ∧
      ∀ inner : Trail → Path → Output → RunM σ Output,
        (∀ w, Opens host t options v w → (inner w.trail w.path w.out).run w.engine =
          (descend host t options w.trail w.path w.out).run w.engine) →
        (processWith host t options inner v.trail v.path v.out).run v.engine =
          (process host t options (t.files.length + 1) v.trail v.path v.out).run v.engine) ∧
      ∃ (r : Except Diagnostic Outcome) (e' : Engine σ),
        (preprocess host t options root).run e = (r, e') ∧
          ∀ room, t.regularFiles.length < room →
            (preprocessWithin host t options room root).run e = (r, e') := by
  have hfiles := t.length_regularFiles_le
  constructor
  · intro v hv
    have hfresh := hv.fresh
    refine ⟨fun n => ⟨hv.nodup_identities n, ?_⟩, fun inner hinner => ?_⟩
    · rcases hv.distinct_or_root with hopen | ⟨hroot, err, hread⟩
      · exact .inl ⟨(hopen.atLine n).regular, (hopen.atLine n).length_le⟩
      · exact .inr ⟨hroot, err, hread, run_preprocess_of_read hread e⟩
    · have hroom : t.regularFiles.length < t.files.length + 1 + v.outer.length := by omega
      rw [run_processWith_of_opens hinner, Visit.trail,
        process_eq hfresh.distinct hfresh.isNew hroom]
  · refine ⟨_, _, rfl, fun room hroom => ?_⟩
    have hprocess : process host t options room (Trail.enter [] root) root {} =
        process host t options (t.files.length + 1) (Trail.enter [] root) root {} :=
      process_stable .nil rfl (by rwa [List.length_nil]) (by rw [List.length_nil]; omega) {}
    rw [preprocessWithin, hprocess]
    rfl

/-- A root that is missing is open all the same when it cannot be read, although the tree has no
regular file. -/
theorem visits_missingRoot :
    let root : Path := ⟨"missing.java"⟩
    let e : Engine Unit := ⟨⟨[], false⟩, (), none, #[]⟩
    let v : Visit Unit := .root root e
    Visits (.declining Unit) {} {} root e v ∧ v.trail.length = 1 ∧
      FileTree.regularFiles {} = [] ∧ FileTree.isFile {} root = false ∧
      (preprocess (.declining Unit) {} {} root).run e =
        (.error ⟨.file (.read .notFound) root, none, [⟨root, 0⟩]⟩, e) :=
  ⟨.refl, rfl, by decide, by decide, run_preprocess_of_read rfl _⟩

end Source

end Preprocessor
