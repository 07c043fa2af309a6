/-
The files that are open are distinct regular files.

A path that names something is told apart by the location it names, so a file that is not held
by a trail is at a location that no path of the trail names.  The open files are therefore
never more than the tree has regular files.
-/
import Mathlib.Data.List.Dedup
import Mathlib.Data.List.Perm.Subperm
import Preprocessor.Source.Process
import Preprocessor.Proofs.Computation

namespace Preprocessor

namespace FileTree

variable {t : FileTree}

def isFileAt (t : FileTree) (loc : Location) : Bool :=
  match t.entry? loc with
  | some (.file _) => true
  | _ => false

def regularFiles (t : FileTree) : List Location :=
  (t.files.filter t.isFileAt).dedup

theorem length_regularFiles_le (t : FileTree) : t.regularFiles.length ≤ t.files.length :=
  calc t.regularFiles.length
      ≤ (t.files.filter t.isFileAt).length := (List.dedup_sublist _).length_le
    _ ≤ t.files.length := List.length_filter_le _ _

theorem isFileAt_iff {loc : Location} :
    t.isFileAt loc = true ↔ ∃ bytes, t.entry? loc = some (.file bytes) := by
  unfold isFileAt
  split
  · rename_i bytes h
    exact ⟨fun _ => ⟨bytes, h⟩, fun _ => rfl⟩
  · rename_i h
    constructor
    · intro h'
      cases h'
    · rintro ⟨bytes, h'⟩
      exact absurd h' (h bytes)

theorem mem_regularFiles {loc : Location} (h : t.isFileAt loc = true) :
    loc ∈ t.regularFiles := by
  obtain ⟨bytes, hentry⟩ := isFileAt_iff.mp h
  have hmem : (loc, Entry.file bytes) ∈ t.entries := by
    cases loc with
    | nil => cases hentry -- the root is a directory
    | cons s dir =>
        obtain ⟨l₁, l₂, hl, -⟩ := List.lookup_eq_some_iff.mp hentry
        rw [hl]
        exact List.mem_append_right _ List.mem_cons_self
  unfold regularFiles
  rw [List.mem_dedup, List.mem_filter]
  refine ⟨?_, h⟩
  unfold files
  exact List.mem_filterMap.mpr ⟨_, hmem, rfl⟩

theorem isFile_iff {p : Path} :
    t.isFile p = true ↔ ∃ loc, t.locate p = .ok loc ∧ t.isFileAt loc = true := by
  unfold isFile find?
  cases t.locate p with
  | error e =>
      constructor
      · intro h
        cases h
      · rintro ⟨loc, h, -⟩
        cases h
  | ok loc =>
      constructor
      · intro h
        exact ⟨loc, rfl, h⟩
      · rintro ⟨loc', h, hloc⟩
        cases h
        exact hloc

theorem isFile_of_read {p : Path} {bytes : List UInt8} (h : t.read p = .ok bytes) :
    t.isFile p = true := by
  unfold read at h
  split at h
  · cases h
  · rename_i loc hloc
    split at h
    · rename_i bytes' hentry
      exact isFile_iff.mpr ⟨loc, hloc, isFileAt_iff.mpr ⟨bytes', hentry⟩⟩
    · cases h
    · cases h

theorem canonical_of_locate {p : Path} {loc : Location} (h : t.locate p = .ok loc) :
    t.canonical p = locationComponents loc := by
  unfold canonical
  rw [h]

/-- The canonical components of a regular file are those of its location. -/
theorem canonical_mem_of_isFile {p : Path} (h : t.isFile p = true) :
    t.canonical p ∈ t.regularFiles.map locationComponents := by
  obtain ⟨loc, hloc, hfile⟩ := isFile_iff.mp h
  rw [canonical_of_locate hloc]
  exact List.mem_map_of_mem (mem_regularFiles hfile)

end FileTree

/-! ## Trails -/

namespace Trail

variable {t : FileTree} {trail : Trail}

def identities (trail : Trail) (t : FileTree) : List (List Path.Component) :=
  trail.map fun p => t.canonical p.path

@[simp] theorem atLine_atLine (trail : Trail) (m n : Nat) :
    (trail.atLine m).atLine n = trail.atLine n := by
  cases trail <;> rfl

@[simp] theorem length_atLine (trail : Trail) (n : Nat) :
    (trail.atLine n).length = trail.length := by
  cases trail <;> rfl

@[simp] theorem identities_atLine (trail : Trail) (n : Nat) :
    (trail.atLine n).identities t = trail.identities t := by
  cases trail <;> rfl

theorem holds_iff {path : Path} :
    trail.holds t path = true ↔ t.canonical path ∈ trail.identities t := by
  unfold holds identities
  rw [List.any_eq_true, List.mem_map]
  constructor
  · rintro ⟨p, hp, h⟩
    exact ⟨p, hp, eq_of_beq h⟩
  · rintro ⟨p, hp, h⟩
    exact ⟨p, hp, beq_iff_eq.mpr h⟩

structure Distinct (trail : Trail) (t : FileTree) : Prop where
  nodup : (trail.identities t).Nodup
  regular : ∀ p ∈ trail, t.isFile p.path = true

namespace Distinct

theorem nil : Distinct [] t :=
  ⟨List.nodup_nil, List.forall_mem_nil _⟩

theorem atLine (h : trail.Distinct t) (n : Nat) : (trail.atLine n).Distinct t := by
  refine ⟨by rw [identities_atLine]; exact h.nodup, ?_⟩
  cases trail with
  | nil => exact h.regular
  | cons top rest =>
      exact List.forall_mem_cons.mpr (List.forall_mem_cons.mp h.regular)

theorem enter {path : Path} (h : trail.Distinct t) (hfile : t.isFile path = true)
    (hnew : trail.holds t path = false) : (trail.enter path).Distinct t := by
  refine ⟨List.nodup_cons.mpr ⟨fun hmem => ?_, h.nodup⟩,
    List.forall_mem_cons.mpr ⟨hfile, h.regular⟩⟩
  rw [holds_iff.mpr hmem] at hnew
  cases hnew

/-- The tree has a regular file for every open one. -/
theorem length_le (h : trail.Distinct t) : trail.length ≤ t.regularFiles.length := by
  have hsub : trail.identities t ⊆ t.regularFiles.map FileTree.locationComponents := by
    intro x hx
    obtain ⟨p, hp, rfl⟩ := List.mem_map.mp hx
    exact FileTree.canonical_mem_of_isFile (h.regular p hp)
  have hle := (List.subperm_of_subset h.nodup hsub).length_le
  rwa [identities, List.length_map, List.length_map] at hle

end Distinct

end Trail

end Preprocessor
