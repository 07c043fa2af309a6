/-
The paths that a run looks up.

A run looks up the path of its root and, for each line that asks for a file, the places where the
file may be, up to the first that is one.  The paths can be listed beforehand.  A run on another
tree in which every one of them names the same is the same run, whatever else the trees hold.
-/
import Preprocessor.Proofs.Inclusion
import Preprocessor.Proofs.PathPlaces

namespace Preprocessor

namespace Trail

def paths (trail : Trail) : List Path :=
  trail.map Position.path

theorem paths_atLine (trail : Trail) (n : Nat) : (trail.atLine n).paths = trail.paths := by
  cases trail <;> rfl

end Trail

namespace Source

open FileTree

variable {σ : Type}

/-! ## What is looked up -/

/-- The paths up to the first that names a file. -/
def upToFile (t : FileTree) : List Path → List Path
  | [] => []
  | p :: ps => p :: if t.isFile p then [] else upToFile t ps

section

variable (host : Host σ) (t : FileTree) (options : Options)

/-- The paths that a line looks up; `inner` lists those of an included file. -/
def lineLookups (inner : Trail → Path → Output → Engine σ → List Path) (trail : Trail)
    (path : Path) (index : Nat) (line : Line) (scope : Scope) (out : Output) (e : Engine σ) :
    List Path :=
  match e.processLine host ⟨path, index⟩ line.content scope with
  | (.ok (.includeFile target), _, e) =>
    upToFile t (candidates options path target) ++
      match openInclude t options (trail.atLine index) path target with
      | .error _ => []
      | .ok included => inner ((trail.atLine index).enter included) included out e
  | _ => []

/-- The paths that the lines of a file look up, as long as they are followed. -/
def linesLookups (descend : Trail → Path → Output → RunM σ Output)
    (inner : Trail → Path → Output → Engine σ → List Path) (trail : Trail) (path : Path) :
    (index : Nat) → List Line → Scope → Output → Engine σ → List Path
  | _, [], _, _, _ => []
  | index, line :: rest, scope, out, e =>
    lineLookups host t options inner trail path index line scope out e ++
      match (followLines host t options descend trail path index [line] scope out).run e with
      | (.ok (.completed, scope, out), e) =>
        linesLookups descend inner trail path (index + 1) rest scope out e
      | _ => []

/-- The paths that a file looks up which may include files to a depth of `room`. -/
def lookupsWithin : (room : Nat) → Trail → Path → Output → Engine σ → List Path
  | 0, _, _, _, _ => []
  | room + 1, trail, path, out, e =>
    path ::
      match readText t options path with
      | .error _ => []
      | .ok decoded =>
        linesLookups host t options (descendWithin host t options room) (lookupsWithin room) trail
          path 0 (Text.lines decoded.text) {} out e

def lookups (root : Path) (e : Engine σ) : List Path :=
  lookupsWithin host t options (t.files.length + 1) (Trail.enter [] root) root {} e

end

/-! ## Runs on trees that name the paths alike -/

variable {host : Host σ} {t t' : FileTree} {options : Options}

theorem find?_of_upToFile {ps : List Path} (h : ∀ p ∈ upToFile t ps, NamesAlike t t' p) :
    ps.find? t'.isFile = ps.find? t.isFile := by
  induction ps with
  | nil => rfl
  | cons p ps ih =>
      obtain ⟨hp, hps⟩ := List.forall_mem_cons.mp h
      rw [List.find?_cons, List.find?_cons, hp.isFile]
      cases hfile : t.isFile p with
      | true => rfl
      | false =>
          rw [hfile] at hps
          exact ih hps

theorem mem_upToFile {ps : List Path} {p : Path} (h : ps.find? t.isFile = some p) :
    p ∈ upToFile t ps := by
  induction ps with
  | nil => cases h
  | cons q ps ih =>
      rw [List.find?_cons] at h
      rw [upToFile]
      cases hfile : t.isFile q with
      | true =>
          rw [hfile] at h
          cases h
          exact List.mem_cons_self
      | false =>
          rw [hfile] at h
          exact List.mem_cons_of_mem _ (ih h)

theorem readText_alike {path : Path} (h : NamesAlike t t' path) :
    readText t' options path = readText t options path := by
  rw [readText, h.read, readText]

theorem holds_alike {trail : Trail} {path : Path} (htrail : ∀ p ∈ trail.paths, NamesAlike t t' p)
    (h : NamesAlike t t' path) : trail.holds t' path = trail.holds t path := by
  induction trail with
  | nil => rfl
  | cons pos trail ih =>
      obtain ⟨hpos, htrail⟩ := List.forall_mem_cons.mp htrail
      unfold Trail.holds at ih ⊢
      rw [List.any_cons, List.any_cons, ih htrail, hpos.canonical, h.canonical]

theorem openInclude_alike {trail : Trail} {path : Path} {target : String}
    (htrail : ∀ p ∈ trail.paths, NamesAlike t t' p)
    (h : ∀ p ∈ upToFile t (candidates options path target), NamesAlike t t' p) :
    openInclude t' options trail path target = openInclude t options trail path target := by
  unfold openInclude findInclude
  rw [find?_of_upToFile h]
  cases hfind : (candidates options path target).find? t.isFile with
  | none => rfl
  | some found =>
      dsimp only
      rw [holds_alike htrail (h found (mem_upToFile hfind))]

section

variable {descend descend' : Trail → Path → Output → RunM σ Output}
  {inner : Trail → Path → Output → Engine σ → List Path} {trail : Trail} {path : Path}

theorem followLine_alike {index : Nat} {line : Line} {scope : Scope} {out : Output} {e : Engine σ}
    (htrail : ∀ p ∈ trail.paths, NamesAlike t t' p)
    (hdescend : ∀ target included e,
      openInclude t options (trail.atLine index) path target = .ok included →
      (∀ p ∈ inner ((trail.atLine index).enter included) included out e, NamesAlike t t' p) →
      (descend' ((trail.atLine index).enter included) included out).run e =
        (descend ((trail.atLine index).enter included) included out).run e)
    (h : ∀ p ∈ lineLookups host t options inner trail path index line scope out e,
      NamesAlike t t' p) :
    (followLines host t' options descend' trail path index [line] scope out).run e =
      (followLines host t options descend trail path index [line] scope out).run e := by
  rw [run_followLines_singleton, run_followLines_singleton]
  unfold lineLookups at h
  rcases hstep : e.processLine host ⟨path, index⟩ line.content scope with ⟨r, scope₁, e₁⟩
  rw [hstep] at h
  cases r with
  | error fault => rfl
  | ok step =>
      cases step with
      | emit text => rfl
      | skip => rfl
      | exclude => rfl
      | includeFile target =>
          dsimp only at h ⊢
          rw [List.forall_mem_append] at h
          have hopen := openInclude_alike ((trail.paths_atLine index).symm ▸ htrail) h.1
          rw [hopen]
          cases hincluded : openInclude t options (trail.atLine index) path target with
          | error fault => rfl
          | ok included =>
              rw [hincluded] at h
              dsimp only
              rw [hdescend target included e₁ hincluded h.2]

theorem followLines_alike {index : Nat} {lines : List Line} {scope : Scope} {out : Output}
    {e : Engine σ} (htrail : ∀ p ∈ trail.paths, NamesAlike t t' p)
    (hdescend : ∀ n target included out e,
      openInclude t options (trail.atLine n) path target = .ok included →
      (∀ p ∈ inner ((trail.atLine n).enter included) included out e, NamesAlike t t' p) →
      (descend' ((trail.atLine n).enter included) included out).run e =
        (descend ((trail.atLine n).enter included) included out).run e)
    (h : ∀ p ∈ linesLookups host t options descend inner trail path index lines scope out e,
      NamesAlike t t' p) :
    (followLines host t' options descend' trail path index lines scope out).run e =
      (followLines host t options descend trail path index lines scope out).run e := by
  induction lines generalizing index scope out e with
  | nil => rfl
  | cons line rest ih =>
      rw [linesLookups, List.forall_mem_append] at h
      have hline := followLine_alike htrail
        (fun target included e => hdescend index target included out e) h.1
      rw [run_followLines_cons descend', run_followLines_cons descend, hline]
      rcases hrun : (followLines host t options descend trail path index [line] scope out).run e
        with ⟨d | ⟨fileEnd, scope₁, out₁⟩, e₁⟩
      · rfl
      · cases fileEnd with
        | excluded => rfl
        | completed =>
            rw [hrun] at h
            exact ih h.2

end

/-- A file is processed alike if all that it looks up is named alike, with room for all files of
either tree. -/
theorem process_alike {outer : Trail} {path : Path} {room room' : Nat} {out : Output}
    {e : Engine σ} (hopen : outer.Distinct t) (hopen' : outer.Distinct t')
    (hnew : outer.holds t path = false) (hroom : t.regularFiles.length < room + outer.length)
    (hroom' : t'.regularFiles.length < room' + outer.length)
    (houter : ∀ p ∈ outer.paths, NamesAlike t t' p)
    (h : ∀ p ∈ lookupsWithin host t options room (outer.enter path) path out e,
      NamesAlike t t' p) :
    (process host t' options room' (outer.enter path) path out).run e =
      (process host t options room (outer.enter path) path out).run e := by
  induction room generalizing outer path room' out e with
  | zero =>
      have hle := hopen.length_le
      omega
  | succ room ih =>
      cases room' with
      | zero =>
          have hle := hopen'.length_le
          omega
      | succ room' =>
          obtain ⟨hpath, hlines⟩ := List.forall_mem_cons.mp h
          rw [process_succ, process_succ, processWith, processWith, readText_alike hpath]
          cases hread : readText t options path with
          | error fault => rfl
          | ok decoded =>
              have hfile := isFile_of_readText hread
              have hall := hopen.enter hfile hnew
              have hall' := hopen'.enter (hpath.isFile.trans hfile)
                ((holds_alike houter hpath).trans hnew)
              have htrail : ∀ p ∈ (outer.enter path).paths, NamesAlike t t' p :=
                List.forall_mem_cons.mpr ⟨hpath, houter⟩
              rw [hread] at hlines
              dsimp only
              refine run_bind_congr (followLines_alike htrail ?_ hlines) _
              intro n target included out e hincluded hinner
              have hdeeper : ((outer.enter path).atLine n).length = outer.length + 1 :=
                Trail.length_atLine _ n
              exact run_bind_congr (ih (hall.atLine n) (hall'.atLine n)
                (of_openInclude hincluded).2 (by omega) (by omega)
                ((Trail.paths_atLine _ n).symm ▸ htrail) hinner) _

/-- A run is the same on every tree that names alike what it looks up. -/
theorem run_preprocess_alike {root : Path} {e : Engine σ}
    (h : ∀ p ∈ lookups host t options root e, NamesAlike t t' p) :
    (preprocess host t' options root).run e = (preprocess host t options root).run e := by
  have hfiles := t.length_regularFiles_le
  have hfiles' := t'.length_regularFiles_le
  refine run_bind_congr (process_alike .nil .nil rfl ?_ ?_ (List.forall_mem_nil _) h) _
  · rw [List.length_nil]
    omega
  · rw [List.length_nil]
    omega

end Source

end Preprocessor
