/-
The places that a commit looks at.

Committing output looks at the places on the way to its directory and to its path, and it changes
some of these.  In a tree that agrees there it comes to the same, and so it does if directories that
it makes are there already, as long as nothing is found under the path.

The temporary file has no part in this.  Its path is made of the directory of the output and of the
working directory, which all the trees here share, and it is no entry of any of them.  So the disk
gives the same answers in the trees that are compared.
-/
import Preprocessor.Proofs.SharedDirectories

namespace Preprocessor

namespace FileTree

variable {t t' t₁ u : FileTree} {disk : Disk} {p : Path} {bytes : List UInt8}
  {options : CommitOptions} {r : Except Fault Commit}

/-- The tree with the directory that output for a path is put into. -/
def prepared (t : FileTree) (p : Path) : FileTree :=
  (t.makeDirectories (directoryFor p)).2

def commitPlaces (t : FileTree) (p : Path) : List Location :=
  (t.prepared p).places (directoryFor p) ++ (t.prepared p).places p ++
    (t.prepared p).places (withoutEndSlashes p)

/-- Two trees with a directory at a place where an earlier one had nothing. -/
def SharesDirectory (t t' u : FileTree) (loc : Location) : Prop :=
  t.entry? loc = none ∧ t'.entry? loc = some .directory ∧ u.entry? loc = some .directory

theorem withoutEndSlashes_directoryFor (p : Path) :
    withoutEndSlashes (directoryFor p) = directoryFor p := by
  unfold directoryFor
  split
  · rename_i dir hparent
    split
    · rfl
    · exact withoutEndSlashes_of_parent hparent
  · rfl

theorem replace_congr (hworkdir : u.workdir = t.workdir)
    (h : ∀ loc ∈ t.places (withoutEndSlashes p), u.entry? loc = t.entry? loc)
    (bytes : List UInt8) :
    (∃ e, t.replace p bytes = .error e ∧ u.replace p bytes = .error e) ∨
      ∃ loc ∈ t.places (withoutEndSlashes p), loc ≠ [] ∧
        t.replace p bytes = .ok (t.put loc (.file bytes)) ∧
        u.replace p bytes = .ok (u.put loc (.file bytes)) := by
  unfold replace
  rw [resolve_congr hworkdir h]
  cases hplace : t.resolve false (withoutEndSlashes p) with
  | error e => exact .inl ⟨e, rfl, rfl⟩
  | ok place =>
      have hmem := location_mem_places hplace
      dsimp only
      split
      · exact .inl ⟨_, rfl, rfl⟩
      · split
        · exact .inl ⟨_, rfl, rfl⟩
        · cases place with
          | missing dir name => exact .inr ⟨_, hmem, List.cons_ne_nil _ _, rfl, rfl⟩
          | found loc =>
              dsimp only
              rw [h loc hmem]
              split
              · exact .inl ⟨_, rfl, rfl⟩
              · rename_i hentry
                refine .inr ⟨loc, hmem, ?_, rfl, rfl⟩
                rintro rfl
                exact hentry rfl

theorem writeTemporary_congr (hworkdir : u.workdir = t.workdir) :
    u.writeTemporary disk p bytes = t.writeTemporary disk p bytes := by
  simp only [writeTemporary, temporaryFor, absolute, hworkdir]

theorem fill_congr (hworkdir : u.workdir = t.workdir)
    (h : ∀ loc ∈ t.places (withoutEndSlashes p), u.entry? loc = t.entry? loc)
    (disk : Disk) (bytes : List UInt8) :
    (∃ fault, t.fill disk p bytes = .error fault ∧ u.fill disk p bytes = .error fault) ∨
      ∃ loc ∈ t.places (withoutEndSlashes p), loc ≠ [] ∧
        t.fill disk p bytes = .ok (t.put loc (.file bytes)) ∧
        u.fill disk p bytes = .ok (u.put loc (.file bytes)) := by
  unfold fill
  rw [writeTemporary_congr hworkdir]
  cases t.writeTemporary disk p bytes with
  | error fault => exact .inl ⟨fault, rfl, rfl⟩
  | ok _ =>
      rcases replace_congr hworkdir h bytes with ⟨e, ht, hu⟩ | ⟨loc, hloc, hne, ht, hu⟩
      · simp only [ht, hu]
        exact .inl ⟨_, rfl, rfl⟩
      · simp only [ht, hu]
        exact .inr ⟨loc, hloc, hne, rfl, rfl⟩

/-- The directory for output is made in the same way in a tree that holds on the places of the
commit what was there before or what is there once the directory is made. -/
theorem prepared_adopts (hworkdir : u.workdir = t.workdir) (hdir : t.Stands t.workdir)
    (hdir' : u.Stands u.workdir) {r : Except OsError Unit}
    (h : t.makeDirectories (directoryFor p) = (r, t₁))
    (hu : ∀ loc ∈ t.commitPlaces p,
      u.entry? loc = t.entry? loc ∨ r = .ok () ∧ u.entry? loc = t₁.entry? loc) :
    ∃ u₁, u.makeDirectories (directoryFor p) = (r, u₁) ∧ Adopts t₁ u u₁ (t.commitPlaces p) := by
  have hdirectory := withoutEndSlashes_directoryFor p
  have hsubset : t₁.places (directoryFor p) ⊆ t.commitPlaces p := by
    intro loc hloc
    simp [commitPlaces, prepared, h, hloc]
  have hframe := makeDirectoriesUpTo_frame hdir hdirectory h
  obtain ⟨u₁, hmade, hadopts⟩ := makeDirectories_adopts hworkdir hdir hdir' hdirectory h
    fun loc hloc => hu loc (hsubset hloc)
  refine ⟨u₁, hmade, hadopts.mono hsubset fun loc hloc hmem => ?_⟩
  rcases hu loc hloc with hbefore | ⟨-, hafter⟩
  · rw [hbefore, hframe loc hmem]
  · exact hafter

/-- A directory that stands once output is in its place stood as soon as the directories were
made. -/
theorem prepared_of_place (h : t.place disk p bytes = (r, t')) {loc : Location}
    (hloc : t'.entry? loc = some .directory) :
    FileTree.entry? (t.prepared p) loc = some .directory := by
  rcases place_cases h with ⟨e, hmade, -⟩ | ⟨t₁, hmade, ⟨fault, -, -, rfl⟩ | ⟨hfill, -⟩⟩ <;>
    rw [prepared, hmade]
  · exact hloc
  · exact hloc
  · obtain ⟨e, -, hne, -, rfl, -⟩ := exists_of_replace (replace_of_fill hfill)
    rw [entry?_put hne] at hloc
    split at hloc
    · cases hloc
    · exact hloc

/-- Output is put where it belongs in the same way in a tree that agrees on the places of the
commit, or has directories there that the commit makes on the way to all that it needs. -/
theorem place_adopts (hworkdir : u.workdir = t.workdir) (hdir : t.Stands t.workdir)
    (hdir' : u.Stands u.workdir) (h : t.place disk p bytes = (r, t'))
    (hu : ∀ loc ∈ t.commitPlaces p, u.entry? loc = t.entry? loc ∨
      (t.makeDirectories (directoryFor p)).1 = .ok () ∧ SharesDirectory t t' u loc) :
    ∃ u', u.place disk p bytes = (r, u') ∧ Adopts t' u u' (t.commitPlaces p) := by
  rcases place_cases h with ⟨e, hmade, hr⟩ | ⟨t₁, hmade, hnext⟩
  · rw [hmade] at hu
    obtain ⟨u₁, hmade', hadopts⟩ := prepared_adopts hworkdir hdir hdir' hmade fun loc hloc =>
      (hu loc hloc).imp_right fun hshared => by cases hshared.1
    refine ⟨u₁, ?_, hadopts⟩
    rw [place, hmade', hr]
  · have hsubset : t₁.places (withoutEndSlashes p) ⊆ t.commitPlaces p := by
      intro loc hloc
      simp [commitPlaces, prepared, hmade, hloc]
    have hworkdir₁ := (grows_makeDirectories t (directoryFor p)).workdir
    rw [hmade] at hworkdir₁
    have hworkdir' : u.workdir = t₁.workdir := hworkdir.trans hworkdir₁.symm
    obtain ⟨u₁, hmade', hadopts⟩ := prepared_adopts hworkdir hdir hdir' hmade fun loc hloc => by
      refine (hu loc hloc).imp_right fun hshared => ⟨rfl, ?_⟩
      have hprepared := prepared_of_place h hshared.2.2.1
      rw [prepared, hmade] at hprepared
      rw [hshared.2.2.2, hprepared]
    rcases fill_congr (hadopts.workdir.trans hworkdir')
      (fun loc hloc => hadopts.inside loc (hsubset hloc)) disk bytes with
      ⟨fault, hsame, hfill'⟩ | ⟨loc, hloc, hne, hsame, hfill'⟩
    · rcases hnext with ⟨fault', hfill, hr, rfl⟩ | ⟨hfill, -⟩
      · cases hsame.symm.trans hfill
        refine ⟨u₁, ?_, hadopts⟩
        rw [place, hmade', hr]
        dsimp only
        rw [hfill']
      · cases hsame.symm.trans hfill
    · rcases hnext with ⟨fault', hfill, -, -⟩ | ⟨hfill, hr⟩
      · cases hsame.symm.trans hfill
      · cases hsame.symm.trans hfill
        refine ⟨u₁.put loc (.file bytes), ?_, hadopts.workdir, fun l hl => ?_, fun l hl => ?_⟩
        · rw [place, hmade', hr]
          dsimp only
          rw [hfill']
        · rw [entry?_put hne, entry?_put hne, hadopts.inside l hl]
        · rw [entry?_put hne, if_neg, hadopts.outside l hl]
          rintro rfl
          exact hl (hsubset hloc)

/-! ## Committing -/

/-- What a tree may hold for a commit to come to the same in it: what the tree of the commit holds
where the commit looks, and directories that the commit makes, if it can make all that it needs.
Then the path must not be found, or else output may be compared with what it finds through such a
directory. -/
def Admits (t : FileTree) (options : CommitOptions) (p : Path) (t' u : FileTree) : Prop :=
  ∀ loc ∈ t.commitPlaces p, u.entry? loc = t.entry? loc ∨
    (t.makeDirectories (directoryFor p)).1 = .ok () ∧
      (options.skipUnchanged = false ∨ (t.prepared p).locate p = .error .notFound) ∧
      SharesDirectory t t' u loc

instance (t : FileTree) (options : CommitOptions) (p : Path) (t' u : FileTree) :
    Decidable (t.Admits options p t' u) :=
  inferInstanceAs (Decidable (∀ loc ∈ t.commitPlaces p, _ ∨ _ ∧ _ ∧ _ ∧ _ ∧ _))

theorem hasContent_eq_false (h : t.locate p = .error .notFound) (bytes : List UInt8) :
    t.hasContent p bytes = false := by
  rw [hasContent, FileTree.read, h]

theorem NamesAlike.hasContent (h : NamesAlike t u p) (bytes : List UInt8) :
    u.hasContent p bytes = t.hasContent p bytes := by
  rw [FileTree.hasContent, h.read, FileTree.hasContent]

theorem places_subset_commitPlaces (t : FileTree) (p : Path) : t.places p ⊆ t.commitPlaces p := by
  have hgrown := places_subset_of_grows (grows_makeDirectories t (directoryFor p)) p
  intro loc hloc
  simp [commitPlaces, prepared, hgrown hloc]

/-- A commit that changes nothing makes no directories. -/
theorem Admits.entry_eq (hu : t.Admits options p t u) :
    ∀ loc ∈ t.commitPlaces p, u.entry? loc = t.entry? loc := fun loc hloc =>
  (hu loc hloc).resolve_right fun hshared => by
    cases hshared.2.2.1.symm.trans hshared.2.2.2.1

/-- Directories that a commit makes do not make its path lead anywhere, if it leads nowhere once all
of them are made. -/
theorem locate_of_admits (hworkdir : u.workdir = t.workdir) (h : t.place disk p bytes = (r, t'))
    (hu : t.Admits options p t' u) (hmissing : (t.prepared p).locate p = .error .notFound) :
    u.locate p = .error .notFound := by
  have hgrows : Grows t (t.prepared p) := grows_makeDirectories t (directoryFor p)
  refine locate_of_becomes (hgrows.workdir.trans hworkdir.symm) (fun loc hloc => ?_) hmissing
  rcases hu loc (by simp [commitPlaces, hloc]) with hsame | ⟨-, -, -, hmade, hthere⟩
  · rw [hsame]
    exact hgrows.evolves.entry loc
  · rw [hthere, prepared_of_place h hmade]
    exact .same

/-- A commit comes to the same in every tree that admits it: the same result, and the same entries
where the commit looks. -/
theorem commit_adopts (hworkdir : u.workdir = t.workdir) (hdir : t.Stands t.workdir)
    (hdir' : u.Stands u.workdir) (h : t.commit disk options p bytes = (r, t'))
    (hu : t.Admits options p t' u) :
    ∃ u', u.commit disk options p bytes = (r, u') ∧ Adopts t' u u' (t.commitPlaces p) := by
  have hcontent (hsame : ∀ loc ∈ t.places p, u.entry? loc = t.entry? loc) :
      u.hasContent p bytes = t.hasContent p bytes :=
    (namesAlike_of_places hworkdir hsame).hasContent bytes
  have hsubset := places_subset_commitPlaces t p
  unfold commit at h ⊢
  split at h
  · rename_i hdry
    cases h
    rw [if_pos hdry]
    exact ⟨u, rfl, .refl hu.entry_eq⟩
  · rename_i hdry
    rw [if_neg hdry]
    split at h
    · rename_i hskip
      cases h
      rw [hcontent fun loc hloc => hu.entry_eq loc (hsubset hloc), if_pos hskip]
      exact ⟨u, rfl, .refl hu.entry_eq⟩
    · rename_i hskip
      have hskip' : (options.skipUnchanged && u.hasContent p bytes) = false := by
        by_cases hsame : ∀ loc ∈ t.places p, u.entry? loc = t.entry? loc
        · rw [hcontent hsame]
          exact eq_false_of_ne_true hskip
        · push Not at hsame
          obtain ⟨loc, hloc, hne⟩ := hsame
          obtain ⟨-, hoff | hmissing, -⟩ := (hu loc (hsubset hloc)).resolve_left hne
          · rw [hoff]
            rfl
          · rw [hasContent_eq_false (locate_of_admits hworkdir h hu hmissing), Bool.and_false]
      rw [if_neg (by rw [hskip']; exact Bool.false_ne_true)]
      exact place_adopts hworkdir hdir hdir' h fun loc hloc =>
        (hu loc hloc).imp_right fun hshared => ⟨hshared.1, hshared.2.2⟩

end FileTree

end Preprocessor
