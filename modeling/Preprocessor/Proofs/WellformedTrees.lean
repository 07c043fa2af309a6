/-
A session keeps its tree well formed.

Whatever a session puts into a tree, it puts at the end of a path.  The place at the end of a path
is made of names that are steps of the path, or of a link on the way, or that lead to the working
directory, and each of these is a proper name of an entry.  An entry that is put at a place takes
the one that was there away, so that places stay distinct.  Files and directories are put only where
no directory stands, and so the working directory stays.

That the places of a tree are distinct and have proper names is asked for where files are
collected.  It need not be asked for again after a run.
-/
import Preprocessor.Proofs.DryRun
import Preprocessor.Proofs.JoinedPlaces

namespace Preprocessor

/-! ## Names on the way of a path -/

namespace Path

theorem isEntryName_of_step {piece : List Char} {s : String} (hslash : '/' ∉ piece)
    (h : step piece = .name s) : IsEntryName s := by
  unfold step at h
  split at h
  · cases h
  · rename_i hidle
    split at h
    · cases h
    · rename_i hdots
      cases h
      simp only [Bool.or_eq_true, beq_iff_eq, not_or] at hidle hdots
      rw [IsEntryName, String.toList_ofList]
      exact ⟨hidle.1, hslash, hidle.2, hdots⟩

/-- The names that a path goes by are names of entries. -/
theorem isEntryName_of_mem_steps {p : Path} {s : String} (h : .name s ∈ p.steps) :
    IsEntryName s := by
  rw [steps_eq, List.mem_append] at h
  rcases h with h | h
  · split at h <;> simp at h
  · obtain ⟨piece, hpiece, hstep⟩ := List.mem_map.mp h
    have hbody : piece ∈ p.body := by
      rcases List.mem_append.mp hpiece with hinner | hlast
      · exact List.dropLast_subset _ (List.mem_of_mem_filter hinner)
      · exact List.mem_of_getLast? (Option.mem_toList.mp hlast)
    exact isEntryName_of_step (not_mem_of_mem_pieces hbody) hstep

end Path

namespace FileTree

open Preprocessor.Path

variable {t t' : FileTree} {p : Path} {dir loc : Location} {steps : List Component}
  {follow : Bool} {place : End}

/-- Whether all names of a place are names of entries. -/
def Named (loc : Location) : Prop :=
  ∀ name ∈ loc, IsEntryName name

/-- What following steps comes to has proper names only. -/
def Progress.Named : Progress → Prop
  | .done (.ok place) => FileTree.Named place.location
  | .done (.error _) => True
  | .atLink dir _ rest => FileTree.Named dir ∧ ∀ s, .name s ∈ rest → IsEntryName s

theorem named_advance (t : FileTree) (follow : Bool) (hdir : Named dir)
    (hsteps : ∀ s, .name s ∈ steps → IsEntryName s) : (t.advance follow dir steps).Named := by
  induction steps generalizing dir with
  | nil => exact hdir
  | cons step rest ih =>
      have hrest : ∀ s, .name s ∈ rest → IsEntryName s := fun s hs =>
        hsteps s (List.mem_cons_of_mem _ hs)
      cases step with
      | root => exact ih (List.forall_mem_nil _) hrest
      | here => exact ih hdir hrest
      | up => exact ih (fun name hname => hdir name (List.mem_of_mem_tail hname)) hrest
      | name s =>
          have hs : Named (s :: dir) :=
            List.forall_mem_cons.mpr ⟨hsteps s List.mem_cons_self, hdir⟩
          rw [advance.eq_5]
          split
          · trivial
          · split
            · split
              · exact hs
              · trivial
            · exact ih hs hrest
            · split
              · exact hs
              · trivial
            · split
              · exact hs
              · exact ⟨hdir, hrest⟩

theorem named_of_walk {links : Nat} (hdir : Named dir)
    (hsteps : ∀ s, .name s ∈ steps → IsEntryName s)
    (h : t.walk follow links dir steps = .ok place) : Named place.location := by
  fun_induction walk t follow links dir steps with
  | case1 links dir steps r hdone =>
      have hnamed := named_advance t follow hdir hsteps
      rwa [hdone, h] at hnamed
  | case2 => cases h
  | case3 dir steps dir' target rest hcome links ih =>
      have hnamed := named_advance t follow hdir hsteps
      rw [hcome] at hnamed
      refine ih hnamed.1 (fun s hs => ?_) h
      rcases List.mem_append.mp hs with hs | hs
      · exact isEntryName_of_mem_steps hs
      · exact hnamed.2 s hs

/-! ## Entries that are put into a tree -/

theorem map_fst_setEntry (loc : Location) (e : Entry) (entries : List (Location × Entry)) :
    (setEntry loc e entries).map Prod.fst =
      if loc ∈ entries.map Prod.fst then entries.map Prod.fst
      else entries.map Prod.fst ++ [loc] := by
  induction entries with
  | nil => rfl
  | cons entry rest ih =>
      rcases entry with ⟨l, old⟩
      rw [setEntry]
      by_cases hl : l = loc
      · simp [hl]
      · rw [if_neg (by simpa using hl), List.map_cons, ih]
        by_cases hmem : loc ∈ rest.map Prod.fst
        · simp [hmem]
        · simp [hmem, Ne.symm hl]

namespace Wellformed

theorem named_of_entry (ht : t.Wellformed) {e : Entry} (h : t.entry? loc = some e) : Named loc := by
  cases loc with
  | nil => exact List.forall_mem_nil _
  | cons s outer =>
      refine ht.named _ ?_
      exact mem_names_iff.mp (mem_names_iff_entry.mpr ⟨e, h⟩)

theorem named_of_resolve (ht : t.Wellformed) (h : t.resolve follow p = .ok place) :
    Named place.location := by
  rw [resolve_eq_walk h] at h
  exact named_of_walk (ht.named_of_entry (ht.stands _ List.suffix_rfl))
    (fun _ => isEntryName_of_mem_steps) h

theorem put (ht : t.Wellformed) (hloc : Named loc) {e : Entry}
    (hevolves : Evolves t (t.put loc e)) :
    (t.put loc e).Wellformed where
  distinct := by
    rw [FileTree.put, map_fst_setEntry]
    split
    · exact ht.distinct
    · rename_i hnew
      exact List.nodup_append.mpr ⟨ht.distinct, List.nodup_singleton loc, by
        rintro l hl l' hl' rfl
        exact hnew (List.mem_singleton.mp hl' ▸ hl)⟩
  named := by
    rw [FileTree.put, map_fst_setEntry]
    split
    · exact ht.named
    · exact List.forall_mem_append.mpr ⟨ht.named, List.forall_mem_singleton.mpr hloc⟩
  stands := ht.stands.evolves hevolves

theorem ensureDirectory (ht : t.Wellformed) (p : Path) : (t.ensureDirectory p).2.Wellformed := by
  unfold FileTree.ensureDirectory makeDirectory
  cases hplace : t.resolve false (withoutEndSlashes p) with
  | error e => exact ht
  | ok place =>
      cases place with
      | found loc => exact ht
      | missing dir name =>
          have hgrows := grows_put (List.cons_ne_nil name dir) (entry?_of_resolve hplace)
          exact ht.put (ht.named_of_resolve hplace) hgrows.evolves

theorem makeDirectories (ht : t.Wellformed) (p : Path) : (t.makeDirectories p).2.Wellformed := by
  unfold FileTree.makeDirectories
  -- the directories around a path are made first
  generalize p.text.length + 1 = limit
  induction limit generalizing p with
  | zero => exact ht
  | succ limit ih =>
      rw [makeDirectoriesUpTo]
      split
      · exact ht
      · split
        · split
          · exact ht
          · rename_i outer _
            have houter := ih outer
            split <;> rename_i hmade <;> rw [hmade] at houter
            · exact houter
            · exact houter.ensureDirectory p
        · exact ht.ensureDirectory p

theorem replace (ht : t.Wellformed) {bytes : List UInt8} (h : t.replace p bytes = .ok t') :
    t'.Wellformed := by
  obtain ⟨place, hplace, hne, hentry, rfl, -⟩ := exists_of_replace h
  exact ht.put (ht.named_of_resolve hplace) (evolves_put hne hentry bytes)

theorem commit (ht : t.Wellformed) (disk : Disk) (options : CommitOptions) (p : Path)
    (bytes : List UInt8) : (t.commit disk options p bytes).2.Wellformed := by
  unfold FileTree.commit
  split
  · exact ht
  · split
    · exact ht
    · have hmade := ht.makeDirectories (directoryFor p)
      rcases hplaced : t.place disk p bytes with ⟨r, t'⟩
      rcases place_cases hplaced with ⟨e, hdir, -⟩ | ⟨t₁, hdir, hfill⟩ <;> rw [hdir] at hmade
      · exact hmade
      · rcases hfill with ⟨fault, -, -, rfl⟩ | ⟨hfill, -⟩
        · exact hmade
        · exact hmade.replace (replace_of_fill hfill)

end Wellformed

end FileTree

/-- A run that clears nothing leaves a tree as a file system holds it, whatever its files do and
wherever it fails. -/
theorem Session.wellformed_run {σ : Type} (s : Session σ) (started finished : Moment)
    (sources : List SourceFile) (state : SessionState σ)
    (hclear : s.config.clearDestination = false) (ht : state.tree.Wellformed) :
    ((s.run started finished sources).run state).2.tree.Wellformed :=
  s.run_keeps (fun _ p bytes ht => ht.commit s.disk s.config.commitOptions p bytes) hclear started
    finished sources ht

end Preprocessor
