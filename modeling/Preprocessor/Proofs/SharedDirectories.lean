/-
Making directories that another tree has made already.

Directories are made for a path in a tree and in another one, which has some of them already.  Both
ways end with the same directories, although the steps are not the same: where the one tree lacks a
directory around the path, the other may be found to have it.  The other tree is looked at only
where the path leads, and it is left as it is elsewhere.

Three trees are compared: the one in which the directories were made, the one that they were made
from, and a third that lies between the two at the places that matter.  Making the directories in
the third ends where it ended in the first.  The recursion goes from a path to its parent, as the
making of directories does.
-/
import Preprocessor.Proofs.MissingPlaces

namespace Preprocessor

namespace FileTree

variable {t t' t₁ u : FileTree} {p outer : Path} {dir : Location} {suf : List Path.Component}

/-! ## Making one directory -/

/-- A tree that has taken on what another holds at some places, and is as it was elsewhere. -/
structure Adopts (t u u' : FileTree) (places : List Location) : Prop where
  workdir : u'.workdir = u.workdir
  inside : ∀ loc ∈ places, u'.entry? loc = t.entry? loc
  outside : ∀ loc ∉ places, u'.entry? loc = u.entry? loc

namespace Adopts

variable {u' u₁ u₂ : FileTree} {ps qs : List Location}

theorem refl (h : ∀ loc ∈ ps, u.entry? loc = t.entry? loc) : Adopts t u u ps :=
  ⟨rfl, h, fun _ _ => rfl⟩

theorem trans (h : Adopts t u u₁ ps) (h' : Adopts t' u₁ u₂ qs) (hps : ps ⊆ qs) :
    Adopts t' u u₂ qs where
  workdir := h'.workdir.trans h.workdir
  inside := h'.inside
  outside loc hloc := (h'.outside loc hloc).trans (h.outside loc fun hmem => hloc (hps hmem))

theorem mono (h : Adopts t u u' ps) (hps : ps ⊆ qs)
    (hqs : ∀ loc ∈ qs, loc ∉ ps → u.entry? loc = t.entry? loc) : Adopts t u u' qs where
  workdir := h.workdir
  inside loc hloc := by
    by_cases hmem : loc ∈ ps
    · exact h.inside loc hmem
    · rw [h.outside loc hmem, hqs loc hloc hmem]
  outside loc hloc := h.outside loc fun hmem => hloc (hps hmem)

end Adopts

/-- A tree that holds at some places what another one held before, or what it holds afterwards. -/
def Partway (t t' u : FileTree) (places : List Location) : Prop :=
  ∀ loc ∈ places, u.entry? loc = t.entry? loc ∨ u.entry? loc = t'.entry? loc

namespace Partway

variable {t₂ v : FileTree} {ps qs : List Location}

theorem put {place : Location} {e : Entry} (hplace : place ≠ [])
    (h : Partway t (t.put place e) u ps) :
    (∀ loc ∈ ps, u.entry? loc = FileTree.entry? (t.put place e) loc) ∨
      ∀ loc ∈ ps, u.entry? loc = t.entry? loc := by
  have hentry := entry?_put (t := t) hplace e
  by_cases hthere : u.entry? place = some e
  · refine .inl fun loc hloc => (h loc hloc).elim (fun hbefore => ?_) id
    rw [hentry]
    split
    · rename_i heq
      rw [heq, hthere]
    · exact hbefore
  · refine .inr fun loc hloc => (h loc hloc).elim id fun hafter => ?_
    rw [hentry] at hafter
    split at hafter
    · rename_i heq
      rw [heq] at hafter
      exact absurd hafter hthere
    · exact hafter

theorem lags (h : Partway t t₁ u ps) (hgrows : Grows t t₁) : Lags t₁ u ps := by
  intro loc hloc
  rcases h loc hloc with hbefore | hafter
  · rw [hbefore]
    exact (hgrows.entry loc).imp Eq.symm And.symm
  · exact .inl hafter

/-- Once a tree has taken on all changes up to a later tree, it lies between that one and the
last. -/
theorem adopts (h : Partway t t₁ u qs) (hv : Adopts t₂ u v ps)
    (hframe : ∀ loc ∉ ps, t₂.entry? loc = t.entry? loc) : Partway t₂ t₁ v qs := by
  intro loc hloc
  by_cases hmem : loc ∈ ps
  · exact .inl (hv.inside loc hmem)
  · rw [hv.outside loc hmem, hframe loc hmem]
    exact h loc hloc

end Partway

/-- Why no directory is made at the end of a path. -/
def refusal : Except OsError End → OsError
  | .error e => e
  | .ok _ => .alreadyExists

theorem ensureDirectory_cases (hp : withoutEndSlashes p = p) (t : FileTree) :
    (∃ dir name, t.resolve false p = .ok (.missing dir name) ∧
        t.ensureDirectory p = (.ok (), t.put (name :: dir) .directory)) ∨
      (∀ dir name, t.resolve false p ≠ .ok (.missing dir name)) ∧
        t.ensureDirectory p =
          (if t.isDirectory p then .ok () else .error (refusal (t.resolve false p)), t) := by
  unfold ensureDirectory makeDirectory
  rw [hp]
  rcases t.resolve false p with e | (loc | ⟨dir, name⟩)
  · exact .inr ⟨fun dir name => by simp, rfl⟩
  · exact .inr ⟨fun dir name => by simp, rfl⟩
  · exact .inl ⟨dir, name, rfl, rfl⟩

theorem ensureDirectory_of_error {e : OsError} (h : t.ensureDirectory p = (.error e, t')) :
    t' = t := by
  unfold ensureDirectory at h
  split at h
  · cases h
  · exact (congrArg Prod.snd h).symm

theorem isDirectory_of_resolve {loc : Location} (h : t.resolve true p = .ok (.found loc)) :
    t.isDirectory p = (t.entry? loc == some .directory) := by
  rw [isDirectory, find?, locate, h]

theorem isDirectory_of_ensureDirectory (hp : withoutEndSlashes p = p)
    (h : t.ensureDirectory p = (.ok (), t₁)) : t₁.isDirectory p = true := by
  rcases ensureDirectory_cases hp t with ⟨dir, name, hplace, hensure⟩ | ⟨-, hensure⟩
  · have hgrows := grows_of_ensureDirectory h
    rw [hensure] at h
    cases h
    have hmade := entry?_put (t := t) (List.cons_ne_nil name dir) .directory (name :: dir)
    rw [if_pos rfl] at hmade
    rw [isDirectory_of_resolve (hgrows.resolve_of_missing hplace hmade), hmade]
    rfl
  · rw [hensure] at h
    split at h
    · cases h
      assumption
    · cases h

theorem locate_of_isDirectory (h : t.isDirectory p = true) : t.locate p ≠ .error .notFound := by
  intro hmissing
  rw [isDirectory, find?, hmissing] at h
  cases h

theorem ensureDirectory_of_isDirectory (hdir : t.Stands t.workdir) (hp : withoutEndSlashes p = p)
    (h : t.isDirectory p = true) : t.ensureDirectory p = (.ok (), t) := by
  rcases ensureDirectory_cases hp t with ⟨dir, name, hplace, -⟩ | ⟨-, hensure⟩
  · exact absurd
      (locate_of_missing hdir (location_mem_places hplace) (entry?_of_resolve hplace))
      (locate_of_isDirectory h)
  · rw [hensure, if_pos h]

/-- A directory is made in the same way in a tree that holds what it takes, and is not made where it
stands already. -/
theorem ensureDirectory_adopts (hworkdir : u.workdir = t.workdir) (hdir : u.Stands u.workdir)
    (hp : withoutEndSlashes p = p) {r : Except OsError Unit}
    (h : t.ensureDirectory p = (r, t₁)) (hu : Partway t t₁ u (t₁.places p)) :
    ∃ u₁, u.ensureDirectory p = (r, u₁) ∧ Adopts t₁ u u₁ (t₁.places p) := by
  have hgrows := grows_of_ensureDirectory h
  have hworkdir' : u.workdir = t₁.workdir := hworkdir.trans hgrows.workdir.symm
  rcases ensureDirectory_cases hp t with ⟨dir, name, hplace, hensure⟩ | ⟨hplace, hensure⟩
  · have hdirectory : t₁.isDirectory p = true := by
      rw [hensure] at h
      cases h
      exact isDirectory_of_ensureDirectory hp hensure
    obtain ⟨rfl, rfl⟩ := Prod.mk.injEq .. ▸ hensure.symm.trans h
    rcases hu.put (List.cons_ne_nil name dir) with hsame | hsame
    · have halike := namesAlike_of_places hworkdir' hsame
      exact ⟨u, ensureDirectory_of_isDirectory hdir hp (halike.isDirectory.trans hdirectory),
        .refl hsame⟩
    · have hentry := entry?_put (t := t) (List.cons_ne_nil name dir) .directory
      have hplace' := (resolve_congr hworkdir
        (fun loc hloc => hsame loc (places_subset_of_grows hgrows p hloc)) false).trans hplace
      have hentry' := entry?_put (t := u) (List.cons_ne_nil name dir) .directory
      refine ⟨u.put (name :: dir) .directory, ?_, rfl, fun loc hloc => ?_, fun loc hloc => ?_⟩
      · rw [ensureDirectory, makeDirectory, hp, hplace']
      · rw [hentry, hentry', hsame loc hloc]
      · rw [hentry', if_neg]
        rintro rfl
        exact hloc (places_subset_of_grows hgrows p (location_mem_places hplace))
  · rw [hensure] at h
    cases h
    have hsame : ∀ loc ∈ t.places p, u.entry? loc = t.entry? loc := fun loc hloc =>
      (hu loc hloc).elim id id
    have hresolve := resolve_congr hworkdir hsame false
    refine ⟨u, ?_, .refl hsame⟩
    rcases ensureDirectory_cases hp u with ⟨dir', name', hplace', -⟩ | ⟨-, hensure'⟩
    · rw [hresolve] at hplace'
      exact absurd hplace' (hplace dir' name')
    · rw [hensure', hresolve, (namesAlike_of_places hworkdir hsame).isDirectory]

/-- A directory is made only where its path leads in the end. -/
theorem ensureDirectory_frame (hdir : t.Stands t.workdir) (hp : withoutEndSlashes p = p)
    {r : Except OsError Unit} (h : t.ensureDirectory p = (r, t₁)) :
    ∀ loc ∉ t₁.places p, t₁.entry? loc = t.entry? loc := by
  obtain ⟨t₂, h', hadopts⟩ := ensureDirectory_adopts rfl hdir hp h fun _ _ => .inl rfl
  rw [h] at h'
  cases h'
  exact hadopts.outside

/-! ## Making those around it -/

theorem makeDirectoriesUpTo_of_empty (h : p.text = "") (limit : Nat) :
    t.makeDirectoriesUpTo (limit + 1) p = (.ok (), t) := by
  rw [makeDirectoriesUpTo, if_pos (by rw [h]; rfl)]

theorem makeDirectoriesUpTo_of_ensured (hne : p.text ≠ "") {r : Except OsError Unit}
    (h : t.ensureDirectory p = (r, t₁)) (hr : r ≠ .error .notFound) (limit : Nat) :
    t.makeDirectoriesUpTo (limit + 1) p = (r, t₁) := by
  rw [makeDirectoriesUpTo, if_neg (by simpa using hne), h]
  split
  · rename_i heq
    cases heq
    exact absurd rfl hr
  · rfl

section NotFound

variable {t₂ : FileTree} {limit : Nat} (hne : p.text ≠ "")
  (h : t.ensureDirectory p = (.error .notFound, t')) (hparent : p.parent = some outer)

include hne h hparent

theorem makeDirectoriesUpTo_of_outer_error {e : OsError}
    (houter : t.makeDirectoriesUpTo limit outer = (.error e, t₂)) :
    t.makeDirectoriesUpTo (limit + 1) p = (.error e, t₂) := by
  rw [makeDirectoriesUpTo, if_neg (by simpa using hne), h, hparent]
  dsimp only
  rw [houter]

theorem makeDirectoriesUpTo_of_outer
    (houter : t.makeDirectoriesUpTo limit outer = (.ok (), t₂)) :
    t.makeDirectoriesUpTo (limit + 1) p = t₂.ensureDirectory p := by
  rw [makeDirectoriesUpTo, if_neg (by simpa using hne), h, hparent]
  dsimp only
  rw [houter]

end NotFound

/-- Making directories ends with the path itself, at once or when those around it are made, or it
fails on the way to there. -/
theorem makeDirectoriesUpTo_cases (hne : p.text ≠ "") {limit : Nat} {r : Except OsError Unit}
    (h : t.makeDirectoriesUpTo (limit + 1) p = (r, t₁)) :
    (t.ensureDirectory p = (r, t₁) ∧ r ≠ .error .notFound) ∨
      t.ensureDirectory p = (.error .notFound, t) ∧
        ((p.parent = none ∧ r = .error .notFound ∧ t₁ = t) ∨
          ∃ outer, p.parent = some outer ∧
            ((∃ e, r = .error e ∧ t.makeDirectoriesUpTo limit outer = (.error e, t₁)) ∨
              ∃ t₂, t.makeDirectoriesUpTo limit outer = (.ok (), t₂) ∧
                t₂.ensureDirectory p = (r, t₁))) := by
  rw [makeDirectoriesUpTo, if_neg (by simpa using hne)] at h
  split at h
  · rename_i hensure
    rw [ensureDirectory_of_error hensure] at hensure
    refine .inr ⟨hensure, ?_⟩
    split at h
    · rename_i hparent
      cases h
      exact .inl ⟨hparent, rfl, rfl⟩
    · rename_i outer hparent
      refine .inr ⟨outer, hparent, ?_⟩
      split at h
      · rename_i e t₂ houter
        cases h
        exact .inl ⟨e, rfl, houter⟩
      · rename_i t₂ houter
        exact .inr ⟨t₂, houter, h⟩
  · rename_i hother
    refine .inl ⟨h, fun hr => ?_⟩
    rw [hr] at h
    exact hother t₁ h

theorem isDirectory_of_makeDirectoriesUpTo (hp : withoutEndSlashes p = p) (hne : p.text ≠ "")
    {limit : Nat} (h : t.makeDirectoriesUpTo limit p = (.ok (), t₁)) : t₁.isDirectory p = true := by
  cases limit with
  | zero => cases h
  | succ limit =>
      rcases makeDirectoriesUpTo_cases hne h with
        ⟨hensure, -⟩ | ⟨-, ⟨-, hr, -⟩ | ⟨outer, -, ⟨e, hr, -⟩ | ⟨t₂, -, hensure⟩⟩⟩
      · exact isDirectory_of_ensureDirectory hp hensure
      · cases hr
      · cases hr
      · exact isDirectory_of_ensureDirectory hp hensure

theorem eq_of_makeDirectoriesUpTo {limit : Nat} (h : outer.text = "" ∨ outer = ⟨"/"⟩)
    (hmade : t.makeDirectoriesUpTo limit outer = (.ok (), t₁)) : t₁ = t := by
  cases limit with
  | zero => cases hmade
  | succ limit =>
      rcases h with hempty | rfl
      · rw [makeDirectoriesUpTo_of_empty hempty] at hmade
        cases hmade
        rfl
      · have hensure : t.ensureDirectory ⟨"/"⟩ = (.ok (), t) := rfl
        rw [makeDirectoriesUpTo_of_ensured (by decide) hensure (by simp)] at hmade
        cases hmade
        rfl

theorem isFollowed_of_ensureDirectory (hp : withoutEndSlashes p = p) (hne : p.text ≠ "")
    (h : t.ensureDirectory p = (.error .notFound, t')) : p.isFollowed = true := by
  rcases ensureDirectory_cases hp t with ⟨dir, name, hplace, -⟩ | ⟨-, hensure⟩
  · exact isFollowed_of_resolve hplace
  · rw [hensure] at h
    cases hfollowed : p.isFollowed with
    | true => rfl
    | false =>
        split at h
        · cases h
        · have hrefusal := (Prod.mk.inj h).1
          simp only [Except.error.injEq] at hrefusal
          rw [resolve, if_neg (by simpa using hne)] at hrefusal
          split at hrefusal
          · cases hrefusal
          · rename_i hnul
            split at hrefusal
            · cases hrefusal
            · rename_i hlong
              rw [Path.isFollowed, eq_false_of_ne_true hnul, decide_eq_false hlong] at hfollowed
              simp [hne] at hfollowed

theorem withoutEndSlashes_of_parent (h : p.parent = some outer) :
    withoutEndSlashes outer = outer := by
  by_cases hne : outer.text = ""
  · rw [show outer = ⟨""⟩ from congrArg Path.mk hne]
    rfl
  · exact (Path.exists_steps_of_parent h hne).1

theorem ensureDirectory_of_lags (hworkdir : u.workdir = t.workdir) (hdir : t.Stands t.workdir)
    (hdir' : u.Stands u.workdir) (hp : withoutEndSlashes p = p) (hfollowed : p.isFollowed = true)
    (hsteps : p.steps = outer.steps ++ suf) (hsuf : suf ≠ [])
    (h : Lags t u (t.places outer)) :
    (∀ loc ∈ t.places outer, u.entry? loc = t.entry? loc) ∨
      u.ensureDirectory p = (.error .notFound, u) := by
  cases houter : outer.isFollowed with
  | false =>
      refine .inl fun loc hloc => ?_
      rw [places, houter, if_neg Bool.false_ne_true] at hloc
      cases hloc
  | true =>
      rw [places, if_pos houter] at h ⊢
      refine (walk_of_lags hdir (hworkdir ▸ hdir') h hsuf).imp_right fun hwalk => ?_
      rw [← hsteps, ← hworkdir] at hwalk
      have hresolve (follow : Bool) : u.resolve follow p = .error .notFound := by
        rw [resolve_of_isFollowed hfollowed, hwalk]
      rcases ensureDirectory_cases hp u with ⟨dir, name, hplace, -⟩ | ⟨-, hensure⟩
      · rw [hresolve] at hplace
        cases hplace
      · have hmissing : u.isDirectory p = false := by
          rw [isDirectory, find?, locate, hresolve]
          rfl
        rw [hensure, hmissing, hresolve]
        rfl

/-- Directories are made only where the path leads in the end. -/
theorem makeDirectoriesUpTo_frame (hdir : t.Stands t.workdir) (hp : withoutEndSlashes p = p)
    {limit : Nat} {r : Except OsError Unit} (h : t.makeDirectoriesUpTo limit p = (r, t₁)) :
    ∀ loc ∉ t₁.places p, t₁.entry? loc = t.entry? loc := by
  induction limit generalizing p t₁ r with
  | zero =>
      cases h
      exact fun _ _ => rfl
  | succ limit ih =>
      by_cases hne : p.text = ""
      · rw [makeDirectoriesUpTo_of_empty hne] at h
        cases h
        exact fun _ _ => rfl
      · rcases makeDirectoriesUpTo_cases hne h with ⟨hensure, -⟩ | ⟨hensure, hnext⟩
        · exact ensureDirectory_frame hdir hp hensure
        · have hfollowed := isFollowed_of_ensureDirectory hp hne hensure
          rcases hnext with ⟨-, -, rfl⟩ | ⟨outer, hparent, ⟨e, -, houter⟩ | ⟨t₂, houter, hlast⟩⟩
          · exact fun _ _ => rfl
          · have hsubset := places_subset_of_parent hparent hfollowed t₁
            exact fun loc hloc => ih (withoutEndSlashes_of_parent hparent) houter loc
              fun hmem => hloc (hsubset hmem)
          · have hgrows := grows_of_makeDirectoriesUpTo houter
            have hgrows' := grows_of_ensureDirectory hlast
            have hsubset := List.Subset.trans (places_subset_of_grows hgrows' outer)
              (places_subset_of_parent hparent hfollowed t₁)
            intro loc hloc
            rw [ensureDirectory_frame (hdir.grows hgrows) hp hlast loc hloc]
            exact ih (withoutEndSlashes_of_parent hparent) houter loc
              fun hmem => hloc (hsubset hmem)

section Outer

variable {t₂ : FileTree} {limit : Nat}

theorem steps_of_outer (hensure : t.ensureDirectory p = (.error .notFound, t'))
    (hparent : p.parent = some outer) (houter : t.makeDirectoriesUpTo limit outer = (.ok (), t₂))
    (hlast : t₂.ensureDirectory p = (.ok (), t₁)) :
    outer.text ≠ "" ∧ ∃ suf, p.steps = outer.steps ++ suf ∧ suf ≠ [] := by
  have hchanged : t₂ ≠ t := by
    rintro rfl
    rw [hensure] at hlast
    cases hlast
  have hne : outer.text ≠ "" := fun hempty =>
    hchanged (eq_of_makeDirectoriesUpTo (.inl hempty) houter)
  obtain ⟨-, init, suf, hsteps, hsuf, rfl | ⟨rfl, -⟩⟩ := Path.exists_steps_of_parent hparent hne
  · exact ⟨hne, suf, hsteps, hsuf⟩
  · exact absurd (eq_of_makeDirectoriesUpTo (.inr rfl) houter) hchanged

theorem entry?_of_outer (hdir : t.Stands t.workdir) (houter : withoutEndSlashes outer = outer)
    (hne : outer.text ≠ "") (hmade : t.makeDirectoriesUpTo limit outer = (.ok (), t₂))
    (hgrows : Grows t₂ t₁) : ∀ loc ∈ t₂.places outer, t₁.entry? loc = t₂.entry? loc := by
  have hdir₂ : t₂.Stands t₂.workdir := hdir.grows (grows_of_makeDirectoriesUpTo hmade)
  intro loc hloc
  refine (hgrows.entry loc).resolve_right fun hnew => ?_
  exact locate_of_isDirectory (isDirectory_of_makeDirectoriesUpTo houter hne hmade)
    (locate_of_missing hdir₂ hloc hnew.1)

end Outer

/-- The directories for a path are made in the same way, whichever of them are there already. -/
theorem makeDirectoriesUpTo_adopts (hworkdir : u.workdir = t.workdir) (hdir : t.Stands t.workdir)
    (hdir' : u.Stands u.workdir) (hp : withoutEndSlashes p = p) {limit : Nat}
    (h : t.makeDirectoriesUpTo limit p = (.ok (), t₁)) (hu : Partway t t₁ u (t₁.places p)) :
    ∃ u₁, u.makeDirectoriesUpTo limit p = (.ok (), u₁) ∧ Adopts t₁ u u₁ (t₁.places p) := by
  induction limit generalizing p t₁ u with
  | zero => cases h
  | succ limit ih =>
      by_cases hne : p.text = ""
      · rw [makeDirectoriesUpTo_of_empty hne] at h
        cases h
        exact ⟨u, makeDirectoriesUpTo_of_empty hne limit, .refl fun loc hloc =>
          (hu loc hloc).elim id id⟩
      · rcases makeDirectoriesUpTo_cases hne h with
          ⟨hensure, hr⟩ | ⟨hensure, ⟨-, hr, -⟩ | ⟨outer, hparent, ⟨e, hr, -⟩ | ⟨t₂, houter, hlast⟩⟩⟩
        · obtain ⟨u₁, hensure', hadopts⟩ := ensureDirectory_adopts hworkdir hdir' hp hensure hu
          exact ⟨u₁, makeDirectoriesUpTo_of_ensured hne hensure' hr limit, hadopts⟩
        · cases hr
        · cases hr
        · have hpouter := withoutEndSlashes_of_parent hparent
          have hfollowed := isFollowed_of_ensureDirectory hp hne hensure
          obtain ⟨hnone, suf, hsteps, hsuf⟩ := steps_of_outer hensure hparent houter hlast
          have hgrows := grows_of_makeDirectoriesUpTo houter
          have hgrows' := grows_of_ensureDirectory hlast
          have hdir₂ : t₂.Stands t₂.workdir := hdir.grows hgrows
          have hworkdir₂ : u.workdir = t₂.workdir := hworkdir.trans hgrows.workdir.symm
          have hsubset := List.Subset.trans (places_subset_of_grows hgrows' outer)
            (places_subset_of_parent hparent hfollowed t₁)
          have hkept := entry?_of_outer hdir hpouter hnone houter hgrows'
          have hpartway : Partway t t₂ u (t₂.places outer) := fun loc hloc =>
            (hu loc (hsubset hloc)).imp_right fun hafter => hafter.trans (hkept loc hloc)
          have hframe := makeDirectoriesUpTo_frame hdir hpouter houter
          rcases ensureDirectory_of_lags hworkdir₂ hdir₂ hdir' hp hfollowed hsteps hsuf
            (hpartway.lags hgrows) with hsame | hmissing
          · obtain ⟨u₁, hensure', hadopts⟩ := ensureDirectory_adopts hworkdir₂ hdir' hp hlast
              (hu.adopts (.refl hsame) hframe)
            exact ⟨u₁, makeDirectoriesUpTo_of_ensured hne hensure' (by simp) limit, hadopts⟩
          · obtain ⟨u₂, houter', hadopts₂⟩ := ih hworkdir hdir' hpouter houter hpartway
            obtain ⟨u₁, hlast', hadopts⟩ := ensureDirectory_adopts
              (hadopts₂.workdir.trans hworkdir₂)
              (hdir'.grows (grows_of_makeDirectoriesUpTo houter'))
              hp hlast (hu.adopts hadopts₂ hframe)
            refine ⟨u₁, ?_, hadopts₂.trans hadopts hsubset⟩
            exact (makeDirectoriesUpTo_of_outer hne hmissing hparent houter').trans hlast'

/-- Directories that cannot be made cannot be made either in a tree that agrees where they lead. -/
theorem makeDirectoriesUpTo_adopts_of_error (hworkdir : u.workdir = t.workdir)
    (hdir : t.Stands t.workdir) (hdir' : u.Stands u.workdir) (hp : withoutEndSlashes p = p)
    {limit : Nat} {e : OsError} (h : t.makeDirectoriesUpTo limit p = (.error e, t₁))
    (hu : ∀ loc ∈ t₁.places p, u.entry? loc = t.entry? loc) :
    ∃ u₁, u.makeDirectoriesUpTo limit p = (.error e, u₁) ∧ Adopts t₁ u u₁ (t₁.places p) := by
  induction limit generalizing p t₁ u with
  | zero =>
      cases h
      exact ⟨u, rfl, .refl hu⟩
  | succ limit ih =>
      have hne : p.text ≠ "" := by
        intro hempty
        rw [makeDirectoriesUpTo_of_empty hempty] at h
        cases h
      rcases makeDirectoriesUpTo_cases hne h with ⟨hensure, hr⟩ | ⟨hensure, hnext⟩
      · obtain ⟨u₁, hensure', hadopts⟩ := ensureDirectory_adopts hworkdir hdir' hp hensure
          fun loc hloc => .inl (hu loc hloc)
        exact ⟨u₁, makeDirectoriesUpTo_of_ensured hne hensure' hr limit, hadopts⟩
      · have hgrows := grows_of_makeDirectoriesUpTo h
        have hfollowed := isFollowed_of_ensureDirectory hp hne hensure
        obtain ⟨u', hensure', -⟩ := ensureDirectory_adopts hworkdir hdir' hp hensure
          fun loc hloc => .inl (hu loc (places_subset_of_grows hgrows p hloc))
        rcases hnext with ⟨hparent, hr, rfl⟩ | ⟨outer, hparent, hnext⟩
        · cases hr
          refine ⟨u, ?_, .refl hu⟩
          rw [makeDirectoriesUpTo, if_neg (by simpa using hne), hensure', hparent]
        · have hpouter := withoutEndSlashes_of_parent hparent
          have hsubset := places_subset_of_parent hparent hfollowed t₁
          rcases hnext with ⟨e', hr, houter⟩ | ⟨t₂, houter, hlast⟩
          · cases hr
            have hframe := makeDirectoriesUpTo_frame hdir hpouter houter
            obtain ⟨u₁, houter', hadopts⟩ := ih hworkdir hdir' hpouter houter
              fun loc hloc => hu loc (hsubset hloc)
            have hmade := makeDirectoriesUpTo_of_outer_error hne hensure' hparent houter'
            refine ⟨u₁, hmade, hadopts.mono hsubset fun loc hloc hmem => ?_⟩
            rw [hu loc hloc, hframe loc hmem]
          · obtain rfl := ensureDirectory_of_error hlast
            have hframe := makeDirectoriesUpTo_frame hdir hpouter houter
            obtain ⟨u₂, houter', hadopts₂⟩ := makeDirectoriesUpTo_adopts hworkdir hdir hdir' hpouter
              houter fun loc hloc => .inl (hu loc (hsubset hloc))
            have hadopts₂ := hadopts₂.mono hsubset fun loc hloc hmem => by
              rw [hu loc hloc, hframe loc hmem]
            have hmade := makeDirectoriesUpTo_of_outer hne hensure' hparent houter'
            obtain ⟨u₁, hlast', hadopts⟩ := ensureDirectory_adopts
              (hadopts₂.workdir.trans (hworkdir.trans hgrows.workdir.symm))
              (hdir'.grows (grows_of_makeDirectoriesUpTo houter')) hp hlast
              fun loc hloc => .inl (hadopts₂.inside loc hloc)
            exact ⟨u₁, hmade.trans hlast', hadopts₂.trans hadopts (List.Subset.refl _)⟩

theorem makeDirectories_adopts (hworkdir : u.workdir = t.workdir) (hdir : t.Stands t.workdir)
    (hdir' : u.Stands u.workdir) (hp : withoutEndSlashes p = p) {r : Except OsError Unit}
    (h : t.makeDirectories p = (r, t₁))
    (hu : ∀ loc ∈ t₁.places p,
      u.entry? loc = t.entry? loc ∨ r = .ok () ∧ u.entry? loc = t₁.entry? loc) :
    ∃ u₁, u.makeDirectories p = (r, u₁) ∧ Adopts t₁ u u₁ (t₁.places p) := by
  cases r with
  | ok _ =>
      exact makeDirectoriesUpTo_adopts hworkdir hdir hdir' hp h fun loc hloc =>
        (hu loc hloc).imp_right And.right
  | error e =>
      refine makeDirectoriesUpTo_adopts_of_error hworkdir hdir hdir' hp h fun loc hloc => ?_
      exact (hu loc hloc).resolve_right fun hok => by cases hok.1

end FileTree

end Preprocessor
