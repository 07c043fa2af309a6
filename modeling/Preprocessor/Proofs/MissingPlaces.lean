/-
Places that a path finds missing.

A path leads over the places of its parent, and over the more places the more directories a tree
has.  If the working directory stands, a path over a place where nothing is finds nothing.  So in a
tree that lacks some directories on the way of a path, what is behind them is not found; in one that
lacks none, the path leads where it led.
-/
import Mathlib.Data.List.Infix
import Preprocessor.Proofs.PathPlaces
import Preprocessor.Proofs.PathSteps

namespace Preprocessor

namespace FileTree

variable {t t' u : FileTree} {p outer : Path} {follow : Bool} {dir dir' : Location}
  {steps pre suf rest : List Path.Component} {links : Nat} {target : Path}

/-! ## Places on the way -/

theorem stretch_subset_append (t : FileTree) (dir : Location) (pre suf : List Path.Component) :
    t.stretch dir pre ⊆ t.stretch dir (pre ++ suf) := by
  induction pre generalizing dir with
  | nil => exact List.cons_subset.mpr ⟨head_mem_stretch t dir suf, List.nil_subset _⟩
  | cons step pre ih =>
      cases step with
      | root => exact List.cons_subset_cons _ (ih [])
      | here => exact ih dir
      | up => exact List.cons_subset_cons _ (ih dir.tail)
      | name s =>
          rw [List.cons_append, stretch, stretch]
          split
          · exact List.Subset.refl _
          · split
            · exact List.cons_subset_cons _ (ih (s :: dir))
            · exact List.Subset.refl _

/-- A link that stops the way stops it too if the way goes on behind it, be it followed at the end
or not. -/
theorem advance_append_of_atLink (h : t.advance true dir pre = .atLink dir' target rest)
    (hsuf : suf ≠ []) (follow : Bool) :
    t.advance follow dir (pre ++ suf) = .atLink dir' target (rest ++ suf) := by
  induction pre generalizing dir with
  | nil => cases h
  | cons step pre ih =>
      cases step with
      | root => exact ih h
      | here => exact ih h
      | up => exact ih h
      | name s =>
          rw [advance.eq_5] at h
          rw [List.cons_append, advance.eq_5]
          split at h
          · cases h
          · rename_i hlong
            rw [if_neg hlong]
            split at h
            · cases h
            · exact ih h
            · cases h
            · rw [if_neg (by simp)] at h
              cases h
              rw [if_neg (by simp [hsuf])]

theorem placesFrom_subset_append (t : FileTree) (links : Nat) (dir : Location)
    (pre : List Path.Component) (hsuf : suf ≠ []) :
    t.placesFrom links dir pre ⊆ t.placesFrom links dir (pre ++ suf) := by
  induction links generalizing dir pre with
  | zero =>
      rw [placesFrom_zero, placesFrom_zero]
      exact stretch_subset_append t dir pre suf
  | succ links ih =>
      have hstretch := List.Subset.trans (stretch_subset_append t dir pre suf)
        (stretch_subset_placesFrom t (links + 1) dir (pre ++ suf))
      cases hcome : t.advance true dir pre with
      | done r =>
          rw [placesFrom_of_done hcome]
          exact hstretch
      | atLink dir' target rest =>
          have hcome' := advance_append_of_atLink hcome hsuf true
          rw [placesFrom_of_atLink hcome]
          refine List.append_subset.mpr ⟨hstretch, ?_⟩
          rw [placesFrom_of_atLink hcome', ← List.append_assoc]
          exact List.subset_append_of_subset_right _ (ih dir' (target.steps ++ rest))

theorem places_subset_of_parent (h : p.parent = some outer) (hp : p.isFollowed = true)
    (t : FileTree) : t.places outer ⊆ t.places p := by
  cases houter : outer.isFollowed with
  | false =>
      rw [places, houter, if_neg Bool.false_ne_true]
      exact List.nil_subset _
  | true =>
      have hne : outer.text ≠ "" := by
        intro hempty
        rw [Path.isFollowed, hempty] at houter
        exact absurd houter (by decide)
      obtain ⟨-, init, last, hsteps, hlast, rfl | ⟨rfl, rfl⟩⟩ := Path.exists_steps_of_parent h hne
      · rw [places, if_pos houter, places, if_pos hp, hsteps]
        exact placesFrom_subset_append t 40 t.workdir outer.steps hlast
      · have hroot : t.places ⟨"/"⟩ = [t.workdir, []] := rfl
        rw [hroot, places, if_pos hp, hsteps]
        refine List.Subset.trans ?_ (stretch_subset_placesFrom t 40 t.workdir _)
        exact List.cons_subset_cons _ (List.cons_subset.mpr
          ⟨head_mem_stretch t [] last, List.nil_subset _⟩)

/-! ## Places that are missing -/

/-- A location at which a directory stands, as around it up to the root. -/
def Stands (t : FileTree) (loc : Location) : Prop :=
  ∀ l, l <:+ loc → t.entry? l = some .directory

instance (t : FileTree) (loc : Location) : Decidable (t.Stands loc) :=
  decidable_of_iff (∀ l ∈ loc.tails, t.entry? l = some .directory) (by simp [Stands])

namespace Stands

theorem nil (t : FileTree) : t.Stands [] := by
  intro l hl
  rw [List.suffix_nil.mp hl]
  rfl

theorem tail (h : t.Stands dir) : t.Stands dir.tail :=
  fun l hl => h l (hl.trans (List.tail_suffix dir))

theorem cons {s : String} (h : t.Stands dir) (hs : t.entry? (s :: dir) = some .directory) :
    t.Stands (s :: dir) := by
  intro l hl
  rcases List.suffix_cons_iff.mp hl with rfl | hl
  · exact hs
  · exact h l hl

theorem evolves (h : t.Stands dir) (ht : Evolves t t') : t'.Stands dir := by
  intro l hl
  have hbecomes := ht.entry l
  rw [h l hl] at hbecomes
  generalize t'.entry? l = e at hbecomes
  cases hbecomes with
  | same => rfl
  | written hne => exact absurd rfl hne

theorem grows (h : t.Stands t.workdir) (ht : Grows t t') : t'.Stands t'.workdir :=
  ht.workdir ▸ h.evolves ht.evolves

theorem advance (h : t.Stands dir) (hcome : t.advance follow dir steps = .atLink dir' target rest) :
    t.Stands dir' := by
  induction steps generalizing dir with
  | nil => cases hcome
  | cons step steps ih =>
      cases step with
      | root => exact ih (nil t) hcome
      | here => exact ih h hcome
      | up => exact ih h.tail hcome
      | name s =>
          rw [advance.eq_5] at hcome
          split at hcome
          · cases hcome
          · split at hcome
            · cases hcome
            · rename_i hs
              exact ih (h.cons hs) hcome
            · cases hcome
            · split at hcome <;> cases hcome
              exact h

end Stands

theorem advance_of_missing (hdir : t.Stands dir) {loc : Location} (hloc : loc ∈ t.stretch dir steps)
    (h : t.entry? loc = none) : ∃ r, t.advance true dir steps = .done r ∧ IsNotFound r := by
  have hstands : ∀ d, t.Stands d → loc ≠ d := by
    rintro d hd rfl
    exact absurd (h.symm.trans (hd loc List.suffix_rfl)) (by decide)
  induction steps generalizing dir with
  | nil => exact absurd (List.mem_singleton.mp hloc) (hstands dir hdir)
  | cons step rest ih =>
      cases step with
      | root =>
          exact ih (.nil t) (List.mem_of_ne_of_mem (hstands dir hdir) hloc)
      | here => exact ih hdir hloc
      | up => exact ih hdir.tail (List.mem_of_ne_of_mem (hstands dir hdir) hloc)
      | name s =>
          rw [stretch] at hloc
          rw [advance.eq_5]
          split at hloc
          · exact absurd (List.mem_singleton.mp hloc) (hstands dir hdir)
          · rename_i hlong
            rw [if_neg hlong]
            split at hloc
            · rename_i hs
              rw [hs]
              exact ih (hdir.cons hs) (List.mem_of_ne_of_mem (hstands dir hdir) hloc)
            · have hs := List.mem_singleton.mp (List.mem_of_ne_of_mem (hstands dir hdir) hloc)
              rw [← hs, h]
              refine ⟨_, rfl, ?_⟩
              split
              · exact .inr ⟨_, _, rfl⟩
              · exact .inl rfl

theorem walk_of_missing (hdir : t.Stands dir) {loc : Location}
    (hloc : loc ∈ t.placesFrom links dir steps) (h : t.entry? loc = none) :
    IsNotFound (t.walk true links dir steps) := by
  have hstretch (links : Nat) {dir : Location} {steps : List Path.Component} (hdir : t.Stands dir)
      (hloc : loc ∈ t.stretch dir steps) : IsNotFound (t.walk true links dir steps) := by
    obtain ⟨r, hr, hmissing⟩ := advance_of_missing hdir hloc h
    rwa [walk_of_done hr]
  induction links generalizing dir steps with
  | zero => exact hstretch 0 hdir (placesFrom_zero ▸ hloc)
  | succ links ih =>
      cases hcome : t.advance true dir steps with
      | done r => exact hstretch _ hdir (placesFrom_of_done hcome ▸ hloc)
      | atLink dir' target rest =>
          rw [placesFrom_of_atLink hcome] at hloc
          rcases List.mem_append.mp hloc with hloc | hloc
          · exact hstretch _ hdir hloc
          · rw [walk, hcome]
            exact ih (hdir.advance hcome) hloc

theorem locate_of_missing (hdir : t.Stands t.workdir) {loc : Location} (hloc : loc ∈ t.places p)
    (h : t.entry? loc = none) : t.locate p = .error .notFound := by
  rw [locate_eq_notFound]
  unfold places at hloc
  split at hloc
  · rename_i hp
    rw [resolve_of_isFollowed hp]
    exact walk_of_missing hdir hloc h
  · cases hloc

/-- A tree that holds at some places what another one holds, or lacks a directory that is there. -/
def Lags (t u : FileTree) (places : List Location) : Prop :=
  ∀ loc ∈ places, u.entry? loc = t.entry? loc ∨
    t.entry? loc = some .directory ∧ u.entry? loc = none

/-- In a tree that lacks directories on the way, the steps and those behind them are not found. -/
theorem advance_of_lags (hdir : t.Stands dir) (hdir' : u.Stands dir)
    (h : Lags t u (t.stretch dir pre)) (hsuf : suf ≠ []) :
    (∀ loc ∈ t.stretch dir pre, u.entry? loc = t.entry? loc) ∨
      ∀ follow, u.advance follow dir (pre ++ suf) = .done (.error .notFound) := by
  have hsame (d : Location) (hd : t.Stands d) (hd' : u.Stands d) : u.entry? d = t.entry? d := by
    rw [hd d List.suffix_rfl, hd' d List.suffix_rfl]
  induction pre generalizing dir with
  | nil => exact .inl (List.forall_mem_singleton.mpr (hsame dir hdir hdir'))
  | cons step pre ih =>
      cases step with
      | root =>
          exact (ih (.nil t) (.nil u) (List.forall_mem_cons.mp h).2).imp_left fun hrest =>
            List.forall_mem_cons.mpr ⟨hsame dir hdir hdir', hrest⟩
      | here => exact ih hdir hdir' h
      | up =>
          exact (ih hdir.tail hdir'.tail (List.forall_mem_cons.mp h).2).imp_left fun hrest =>
            List.forall_mem_cons.mpr ⟨hsame dir hdir hdir', hrest⟩
      | name s =>
          rw [stretch] at h ⊢
          simp only [List.cons_append, advance.eq_5]
          split
          · exact .inl (List.forall_mem_singleton.mpr (hsame dir hdir hdir'))
          · rename_i hlong
            rw [if_neg hlong] at h
            by_cases hs : t.entry? (s :: dir) = some .directory
            · rw [if_pos hs] at h ⊢
              obtain ⟨-, hrest⟩ := List.forall_mem_cons.mp h
              rcases hrest _ (head_mem_stretch t _ _) with hs' | ⟨-, hs'⟩
              · rw [hs] at hs'
                rw [hs']
                exact (ih (hdir.cons hs) (hdir'.cons hs') hrest).imp_left fun hrest =>
                  List.forall_mem_cons.mpr ⟨hsame dir hdir hdir', hrest⟩
              · rw [hs']
                refine .inr fun follow => ?_
                rw [if_neg (by simp [hsuf])]
            · rw [if_neg hs] at h ⊢
              refine .inl fun loc hloc => (h loc hloc).resolve_right ?_
              rintro ⟨hloc', hnone⟩
              rcases List.mem_pair.mp hloc with rfl | rfl
              · exact absurd (hnone.symm.trans (hdir' loc List.suffix_rfl)) (by decide)
              · exact hs hloc'

theorem walk_of_lags (hdir : t.Stands dir) (hdir' : u.Stands dir)
    (h : Lags t u (t.placesFrom links dir pre)) (hsuf : suf ≠ []) :
    (∀ loc ∈ t.placesFrom links dir pre, u.entry? loc = t.entry? loc) ∨
      ∀ follow, u.walk follow links dir (pre ++ suf) = .error .notFound := by
  induction links generalizing dir pre with
  | zero =>
      rw [placesFrom_zero] at h ⊢
      exact (advance_of_lags hdir hdir' h hsuf).imp_right fun hdone follow =>
        walk_of_done (hdone follow)
  | succ links ih =>
      have hstretch := advance_of_lags hdir hdir'
        (fun loc hloc => h loc (stretch_subset_placesFrom t _ _ _ hloc)) hsuf
      rcases hstretch with hsame | hdone
      · have hadvance := advance_congr hsame true
        cases hcome : t.advance true dir pre with
        | done r =>
            rw [placesFrom_of_done hcome]
            exact .inl hsame
        | atLink dir' target rest =>
            rw [hcome] at hadvance
            rw [placesFrom_of_atLink hcome] at h ⊢
            have hrest := ih (hdir.advance hcome) (hdir'.advance hadvance)
              fun loc hloc => h loc (List.mem_append_right _ hloc)
            refine hrest.imp (fun hrest => List.forall_mem_append.mpr ⟨hsame, hrest⟩) ?_
            intro hmissing follow
            rw [walk, advance_append_of_atLink hadvance hsuf follow]
            rw [List.append_assoc] at hmissing
            exact hmissing follow
      · exact .inr fun follow => walk_of_done (hdone follow)

/-! ## Places in a tree that has grown -/

theorem stretch_subset_of_grows (h : Grows t t') (dir : Location) (steps : List Path.Component) :
    t.stretch dir steps ⊆ t'.stretch dir steps := by
  induction steps generalizing dir with
  | nil => exact List.Subset.refl _
  | cons step rest ih =>
      cases step with
      | root => exact List.cons_subset_cons _ (ih [])
      | here => exact ih dir
      | up => exact List.cons_subset_cons _ (ih dir.tail)
      | name s =>
          rw [stretch, stretch]
          split
          · exact List.Subset.refl _
          · by_cases hs' : t'.entry? (s :: dir) = some .directory
            · rw [if_pos hs']
              split
              · exact List.cons_subset_cons _ (ih (s :: dir))
              · exact List.cons_subset_cons _
                  (List.cons_subset.mpr ⟨head_mem_stretch t' _ _, List.nil_subset _⟩)
            · rw [if_neg hs', if_neg fun hs => hs' ((h.entry_eq hs').trans hs)]
              exact List.Subset.refl _

theorem Grows.advance_of_atLink (h : Grows t t')
    (hcome : t.advance follow dir steps = .atLink dir' target rest) :
    t'.advance follow dir steps = .atLink dir' target rest := by
  induction steps generalizing dir with
  | nil => cases hcome
  | cons step steps ih =>
      cases step with
      | root => exact ih hcome
      | here => exact ih hcome
      | up => exact ih hcome
      | name s =>
          rw [advance.eq_5] at hcome ⊢
          split at hcome
          · cases hcome
          · rename_i hlong
            rw [if_neg hlong]
            cases hs : t.entry? (s :: dir) with
            | none =>
                rw [hs] at hcome
                cases hcome
            | some e =>
                have hs' : t'.entry? (s :: dir) = some e := by
                  rcases h.entry (s :: dir) with hsame | ⟨hnone, -⟩
                  · rw [hsame, hs]
                  · rw [hs] at hnone
                    cases hnone
                rw [hs] at hcome
                rw [hs']
                cases e with
                | file _ => cases hcome
                | directory => exact ih hcome
                | link _ => exact hcome

theorem placesFrom_subset_of_grows (h : Grows t t') (links : Nat) (dir : Location)
    (steps : List Path.Component) :
    t.placesFrom links dir steps ⊆ t'.placesFrom links dir steps := by
  induction links generalizing dir steps with
  | zero =>
      rw [placesFrom_zero, placesFrom_zero]
      exact stretch_subset_of_grows h dir steps
  | succ links ih =>
      have hstretch := List.Subset.trans (stretch_subset_of_grows h dir steps)
        (stretch_subset_placesFrom t' (links + 1) dir steps)
      cases hcome : t.advance true dir steps with
      | done r =>
          rw [placesFrom_of_done hcome]
          exact hstretch
      | atLink dir' target rest =>
          rw [placesFrom_of_atLink hcome]
          refine List.append_subset.mpr ⟨hstretch, ?_⟩
          rw [placesFrom_of_atLink (h.advance_of_atLink hcome)]
          exact List.subset_append_of_subset_right _ (ih dir' _)

theorem places_subset_of_grows (h : Grows t t') (p : Path) : t.places p ⊆ t'.places p := by
  unfold places
  split
  · rw [h.workdir]
    exact placesFrom_subset_of_grows h 40 t.workdir p.steps
  · exact List.Subset.refl _

theorem Grows.advance_of_missing (h : Grows t t') {name : String}
    (hcome : t.advance false dir steps = .done (.ok (.missing dir' name)))
    (hmade : t'.entry? (name :: dir') = some .directory) :
    t'.advance true dir steps = .done (.ok (.found (name :: dir'))) := by
  induction steps generalizing dir with
  | nil => cases hcome
  | cons step steps ih =>
      cases step with
      | root => exact ih hcome
      | here => exact ih hcome
      | up => exact ih hcome
      | name s =>
          rw [advance.eq_5] at hcome ⊢
          split at hcome
          · cases hcome
          · rename_i hlong
            rw [if_neg hlong]
            split at hcome
            · split at hcome
              · rename_i hrest
                cases hcome
                rw [hmade, List.isEmpty_iff.mp hrest]
                rfl
              · cases hcome
            · rename_i hs
              have hs' : t'.entry? (s :: dir) = some .directory := by
                rcases h.entry (s :: dir) with hsame | ⟨-, hdirectory⟩
                · rw [hsame, hs]
                · exact hdirectory
              rw [hs']
              exact ih hcome
            · split at hcome <;> cases hcome
            · split at hcome <;> cases hcome

theorem Grows.walk_of_missing (h : Grows t t') {name : String}
    (hwalk : t.walk false links dir steps = .ok (.missing dir' name))
    (hmade : t'.entry? (name :: dir') = some .directory) :
    t'.walk true links dir steps = .ok (.found (name :: dir')) := by
  fun_induction walk t false links dir steps with
  | case1 links dir steps r hdone =>
      subst hwalk
      exact walk_of_done (h.advance_of_missing hdone hmade)
  | case2 => cases hwalk
  | case3 dir steps dir'' target rest hcome links ih =>
      rw [walk, h.advance_of_atLink (advance_true_of_atLink hcome)]
      exact ih hwalk

theorem Grows.resolve_of_missing (h : Grows t t') {name : String}
    (hresolve : t.resolve false p = .ok (.missing dir' name))
    (hmade : t'.entry? (name :: dir') = some .directory) :
    t'.resolve true p = .ok (.found (name :: dir')) := by
  have hfollowed := isFollowed_of_resolve hresolve
  rw [resolve_of_isFollowed hfollowed] at hresolve ⊢
  rw [h.workdir]
  exact h.walk_of_missing hresolve hmade

end FileTree

end Preprocessor
