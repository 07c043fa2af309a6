/-
The places that a path leads over.

Following a path looks at the entries of some places: the directories that it goes through, the
links that it follows and the place where it ends.  Two trees that agree on these places follow the
path alike, whatever else they hold.  A path that is not found leads nowhere either in an earlier
tree, from which the later one has come about by making directories and writing files.
-/
import Preprocessor.Proofs.FileChanges

namespace Preprocessor

/-- Whether a path is followed at all: its text is there, has no zero byte and is not too long. -/
def Path.isFollowed (p : Path) : Bool :=
  !(p.text.isEmpty || p.text.toList.contains '\x00' || decide (4095 < p.text.utf8ByteSize))

namespace FileTree

variable {t t' : FileTree} {p : Path} {follow : Bool} {dir : Location}
  {steps : List Path.Component} {links : Nat}

/-- The places that steps from a directory lead over, up to the first link. -/
def stretch (t : FileTree) : Location → List Path.Component → List Location
  | dir, [] => [dir]
  | dir, .root :: rest => dir :: stretch t [] rest
  | dir, .here :: rest => stretch t dir rest
  | dir, .up :: rest => dir :: stretch t dir.tail rest
  | dir, .name s :: rest =>
    if 255 < s.utf8ByteSize then [dir]
    else if t.entry? (s :: dir) = some .directory then dir :: stretch t (s :: dir) rest
    else [dir, s :: dir]

/-- The places that steps from a directory lead over, through at most so many links. -/
def placesFrom (t : FileTree) : (links : Nat) → Location → List Path.Component → List Location
  | links, dir, steps =>
    t.stretch dir steps ++
      match t.advance true dir steps with
      | .done _ => []
      | .atLink dir target rest =>
        match links with
        | 0 => []
        | links + 1 => placesFrom t links dir (target.steps ++ rest)

theorem stretch_subset_placesFrom (t : FileTree) (links : Nat) (dir : Location)
    (steps : List Path.Component) : t.stretch dir steps ⊆ t.placesFrom links dir steps := by
  unfold placesFrom
  exact List.subset_append_left _ _

theorem placesFrom_of_done {r : Except OsError End} (h : t.advance true dir steps = .done r) :
    t.placesFrom links dir steps = t.stretch dir steps := by
  unfold placesFrom
  rw [h]
  exact List.append_nil _

theorem placesFrom_zero : t.placesFrom 0 dir steps = t.stretch dir steps := by
  unfold placesFrom
  split <;> exact List.append_nil _

theorem placesFrom_of_atLink {dir' : Location} {target : Path} {rest : List Path.Component}
    (h : t.advance true dir steps = .atLink dir' target rest) :
    t.placesFrom (links + 1) dir steps =
      t.stretch dir steps ++ t.placesFrom links dir' (target.steps ++ rest) := by
  rw [placesFrom, h]

/-- The places that a path leads over, links being followed. -/
def places (t : FileTree) (p : Path) : List Location :=
  if p.isFollowed then t.placesFrom 40 t.workdir p.steps else []

/-! ## Trees that agree on the places -/

theorem resolve_of_isFollowed (h : p.isFollowed = true) (t : FileTree) (follow : Bool) :
    t.resolve follow p = t.walk follow 40 t.workdir p.steps := by
  simp only [Path.isFollowed, Bool.not_eq_true', Bool.or_eq_false_iff, decide_eq_false_iff_not] at h
  rw [resolve, if_neg (by simp [h.1.1]), if_neg (by simp only [h.1.2]; exact Bool.false_ne_true),
    if_neg h.2]

/-- A path that is not followed fails in the same way in every tree. -/
theorem resolve_of_not_isFollowed (h : p.isFollowed = false) (t t' : FileTree)
    (follow follow' : Bool) : t'.resolve follow' p = t.resolve follow p := by
  simp only [Path.isFollowed, Bool.not_eq_false', Bool.or_eq_true, decide_eq_true_eq] at h
  unfold resolve
  split
  · rfl
  · rename_i hempty
    split
    · rfl
    · rename_i hnul
      rcases h with (h | h) | h
      · exact absurd h hempty
      · exact absurd h hnul
      · rw [if_pos h, if_pos h]

theorem head_mem_stretch (t : FileTree) (dir : Location) (steps : List Path.Component) :
    dir ∈ t.stretch dir steps := by
  induction steps with
  | nil => exact List.mem_singleton_self dir
  | cons step rest ih =>
      cases step with
      | here => exact ih
      | root => exact List.mem_cons_self
      | up => exact List.mem_cons_self
      | name s =>
          rw [stretch]
          split
          · exact List.mem_singleton_self dir
          · split <;> exact List.mem_cons_self

theorem advance_congr (h : ∀ loc ∈ t.stretch dir steps, t'.entry? loc = t.entry? loc)
    (follow : Bool) : t'.advance follow dir steps = t.advance follow dir steps := by
  induction steps generalizing dir with
  | nil => rfl
  | cons step rest ih =>
      cases step with
      | root => exact ih fun loc hloc => h loc (List.mem_cons_of_mem _ hloc)
      | here => exact ih h
      | up => exact ih fun loc hloc => h loc (List.mem_cons_of_mem _ hloc)
      | name s =>
          rw [stretch] at h
          rw [advance.eq_5, advance.eq_5]
          split
          · rfl
          · rename_i hlong
            rw [if_neg hlong] at h
            by_cases hentry : t.entry? (s :: dir) = some .directory
            · rw [if_pos hentry] at h
              obtain ⟨-, hrest⟩ := List.forall_mem_cons.mp h
              have hsame : t'.entry? (s :: dir) = t.entry? (s :: dir) :=
                hrest _ (head_mem_stretch t _ _)
              rw [hsame, hentry]
              exact ih hrest
            · rw [if_neg hentry] at h
              have hsame : t'.entry? (s :: dir) = t.entry? (s :: dir) := h _ (by simp)
              rw [hsame]
              split
              · rfl
              · rename_i hdirectory
                exact absurd hdirectory hentry
              · rfl
              · rfl

theorem advance_true_of_atLink {dir' : Location} {target : Path} {rest : List Path.Component}
    (h : t.advance follow dir steps = .atLink dir' target rest) :
    t.advance true dir steps = .atLink dir' target rest := by
  induction steps generalizing dir with
  | nil => cases h
  | cons step steps ih =>
      cases step with
      | root => exact ih h
      | here => exact ih h
      | up => exact ih h
      | name s =>
          rw [advance.eq_5] at h ⊢
          split at h
          · cases h
          · rename_i hlong
            rw [if_neg hlong]
            split at h
            · cases h
            · exact ih h
            · cases h
            · split at h
              · cases h
              · rw [if_neg (by simp)]
                exact h

theorem walk_congr (h : ∀ loc ∈ t.placesFrom links dir steps, t'.entry? loc = t.entry? loc)
    (follow : Bool) : t'.walk follow links dir steps = t.walk follow links dir steps := by
  fun_induction walk t follow links dir steps with
  | case1 links dir steps r hdone =>
      unfold placesFrom at h
      refine walk_of_done ?_
      rw [advance_congr (fun loc hloc => h loc (List.mem_append_left _ hloc)), hdone]
  | case2 dir steps dir' target rest hlink =>
      unfold placesFrom at h
      unfold walk
      rw [advance_congr (fun loc hloc => h loc (List.mem_append_left _ hloc)), hlink]
  | case3 dir steps dir' target rest hlink links ih =>
      unfold placesFrom at h
      rw [advance_true_of_atLink hlink] at h
      rw [walk, advance_congr (fun loc hloc => h loc (List.mem_append_left _ hloc)), hlink]
      exact ih fun loc hloc => h loc (List.mem_append_right _ hloc)

/-- Trees that agree on the places that a path leads over follow it alike. -/
theorem resolve_congr (hworkdir : t'.workdir = t.workdir)
    (h : ∀ loc ∈ t.places p, t'.entry? loc = t.entry? loc) (follow : Bool) :
    t'.resolve follow p = t.resolve follow p := by
  unfold places at h
  cases hfollowed : p.isFollowed with
  | false => exact resolve_of_not_isFollowed hfollowed t t' follow follow
  | true =>
      rw [hfollowed, if_pos rfl] at h
      rw [resolve_of_isFollowed hfollowed, resolve_of_isFollowed hfollowed, hworkdir]
      exact walk_congr h follow

/-! ## Where a path ends -/

theorem isFollowed_of_resolve {e : End} (h : t.resolve follow p = .ok e) : p.isFollowed = true := by
  unfold resolve at h
  split at h
  · cases h
  · rename_i hempty
    split at h
    · cases h
    · rename_i hnul
      split at h
      · cases h
      · rename_i hlong
        unfold Path.isFollowed
        rw [eq_false_of_ne_true hempty, eq_false_of_ne_true hnul, decide_eq_false hlong]
        rfl

theorem resolve_of_locate {loc : Location} (h : t.locate p = .ok loc) :
    t.resolve true p = .ok (.found loc) := by
  unfold locate at h
  split at h
  · rename_i loc' hresolve
    cases h
    exact hresolve
  · cases h
  · cases h

theorem location_mem_stretch {e : End} (h : t.advance follow dir steps = .done (.ok e)) :
    e.location ∈ t.stretch dir steps := by
  induction steps generalizing dir with
  | nil =>
      cases h
      exact List.mem_singleton_self dir
  | cons step rest ih =>
      cases step with
      | root => exact List.mem_cons_of_mem _ (ih h)
      | here => exact ih h
      | up => exact List.mem_cons_of_mem _ (ih h)
      | name s =>
          have hplace : s :: dir ∈ [dir, s :: dir] := by simp
          rw [advance.eq_5] at h
          rw [stretch]
          split at h
          · cases h
          · rename_i hlong
            rw [if_neg hlong]
            split at h
            · rename_i hentry
              rw [hentry, if_neg (by simp)]
              split at h <;> cases h
              exact hplace
            · rename_i hentry
              rw [hentry, if_pos rfl]
              exact List.mem_cons_of_mem _ (ih h)
            · rename_i hentry
              rw [hentry, if_neg (by simp)]
              split at h <;> cases h
              exact hplace
            · rename_i hentry
              rw [hentry, if_neg (by simp)]
              split at h <;> cases h
              exact hplace

theorem location_mem_placesFrom {e : End} (h : t.walk follow links dir steps = .ok e) :
    e.location ∈ t.placesFrom links dir steps := by
  fun_induction walk t follow links dir steps with
  | case1 links dir steps r hdone =>
      subst h
      unfold placesFrom
      exact List.mem_append_left _ (location_mem_stretch hdone)
  | case2 => cases h
  | case3 dir steps dir' target rest hlink links ih =>
      unfold placesFrom
      rw [advance_true_of_atLink hlink]
      exact List.mem_append_right _ (ih h)

/-- The place where a path ends is one that it leads over. -/
theorem location_mem_places {e : End} (h : t.resolve follow p = .ok e) :
    e.location ∈ t.places p := by
  have hfollowed := isFollowed_of_resolve h
  rw [resolve_of_isFollowed hfollowed] at h
  rw [places, if_pos hfollowed]
  exact location_mem_placesFrom h

/-! ## What a path names -/

/-- A path that names the same in two trees: the same place, or nothing for the same reason, and the
same entry there. -/
structure NamesAlike (t t' : FileTree) (p : Path) : Prop where
  locate : t'.locate p = t.locate p
  find? : t'.find? p = t.find? p

namespace NamesAlike

theorem symm (h : NamesAlike t t' p) : NamesAlike t' t p :=
  ⟨h.locate.symm, h.find?.symm⟩

theorem isFile (h : NamesAlike t t' p) : t'.isFile p = t.isFile p := by
  rw [FileTree.isFile, h.find?, FileTree.isFile]

theorem isDirectory (h : NamesAlike t t' p) : t'.isDirectory p = t.isDirectory p := by
  rw [FileTree.isDirectory, h.find?, FileTree.isDirectory]

theorem canonical (h : NamesAlike t t' p) : t'.canonical p = t.canonical p := by
  rw [FileTree.canonical, h.locate, FileTree.canonical]

theorem read (h : NamesAlike t t' p) : t'.read p = t.read p := by
  have hfind := h.find?
  unfold FileTree.find? at hfind
  unfold FileTree.read
  rw [h.locate] at hfind ⊢
  cases hlocate : t.locate p with
  | error e => rfl
  | ok loc =>
      rw [hlocate] at hfind
      dsimp only at hfind ⊢
      rw [hfind]

end NamesAlike

theorem namesAlike_of_places (hworkdir : t'.workdir = t.workdir)
    (h : ∀ loc ∈ t.places p, t'.entry? loc = t.entry? loc) : NamesAlike t t' p := by
  have hlocate : t'.locate p = t.locate p := by
    rw [locate, resolve_congr hworkdir h, locate]
  refine ⟨hlocate, ?_⟩
  rw [find?, hlocate, find?]
  cases hfound : t.locate p with
  | error e => rfl
  | ok loc => exact h loc (location_mem_places (resolve_of_locate hfound))

theorem namesAlike_of_notFound (h : t.locate p = .error .notFound)
    (h' : t'.locate p = .error .notFound) : NamesAlike t t' p := by
  refine ⟨h'.trans h.symm, ?_⟩
  rw [find?, h', find?, h]

/-! ## Trees that come about one from another -/

/-- What can stand at a place afterwards: what stood there, a new directory, or a file in place of
what was no directory. -/
inductive Becomes : Option Entry → Option Entry → Prop
  | same {e : Option Entry} : Becomes e e
  | made : Becomes none (some .directory)
  | written {e : Option Entry} {bytes : List UInt8} : e ≠ some .directory →
      Becomes e (some (.file bytes))

theorem Becomes.trans {e₁ e₂ e₃ : Option Entry} (h : Becomes e₁ e₂) (h' : Becomes e₂ e₃) :
    Becomes e₁ e₃ := by
  cases h' with
  | same => exact h
  | made =>
      cases h
      exact .made
  | written hne =>
      cases h with
      | same => exact .written hne
      | made => exact absurd rfl hne
      | written hne' => exact .written hne'

/-- A tree that has come about from another by making directories and writing files. -/
structure Evolves (t t' : FileTree) : Prop where
  workdir : t'.workdir = t.workdir
  entry : ∀ loc, Becomes (t.entry? loc) (t'.entry? loc)

namespace Evolves

theorem refl (t : FileTree) : Evolves t t :=
  ⟨rfl, fun _ => .same⟩

theorem trans {t₁ t₂ : FileTree} (h : Evolves t t₁) (h' : Evolves t₁ t₂) : Evolves t t₂ :=
  ⟨h'.workdir.trans h.workdir, fun loc => (h.entry loc).trans (h'.entry loc)⟩

end Evolves

theorem Grows.evolves (h : Grows t t') : Evolves t t' where
  workdir := h.workdir
  entry loc := by
    rcases h.entry loc with hsame | ⟨hnone, hmade⟩
    · rw [hsame]
      exact .same
    · rw [hnone, hmade]
      exact .made

theorem evolves_put {loc : Location} (hne : loc ≠ []) (h : t.entry? loc ≠ some .directory)
    (bytes : List UInt8) : Evolves t (t.put loc (.file bytes)) where
  workdir := rfl
  entry l := by
    rw [entry?_put hne]
    split
    · rename_i hl
      rw [hl]
      exact .written h
    · exact .same

theorem evolves_place (t : FileTree) (disk : Disk) (p : Path) (bytes : List UInt8) :
    Evolves t (t.place disk p bytes).2 := by
  have hmade := (grows_makeDirectories t (directoryFor p)).evolves
  unfold place
  split <;> rename_i hdirectories <;> rw [hdirectories] at hmade
  · exact hmade
  · split
    · exact hmade
    · rename_i hfill
      obtain ⟨e, -, hne, hentry, rfl, -⟩ := exists_of_replace (replace_of_fill hfill)
      exact hmade.trans (evolves_put hne hentry bytes)

theorem evolves_commit (t : FileTree) (disk : Disk) (options : CommitOptions) (p : Path)
    (bytes : List UInt8) : Evolves t (t.commit disk options p bytes).2 := by
  unfold commit
  split
  · exact .refl t
  · split
    · exact .refl t
    · exact evolves_place t disk p bytes

def IsNotFound (r : Except OsError End) : Prop :=
  r = .error .notFound ∨ ∃ dir name, r = .ok (.missing dir name)

theorem locate_eq_notFound : t.locate p = .error .notFound ↔ IsNotFound (t.resolve true p) := by
  unfold locate IsNotFound
  rcases t.resolve true p with e | (loc | ⟨dir, name⟩) <;> simp

/-- Where steps lead differently in an earlier tree, they find nothing there, or find something in
the later one. -/
theorem advance_cases (h : ∀ loc ∈ t'.stretch dir steps, Becomes (t.entry? loc) (t'.entry? loc)) :
    t.advance true dir steps = t'.advance true dir steps ∨
      (∃ r, t.advance true dir steps = .done r ∧ IsNotFound r) ∨
      ∃ r, t'.advance true dir steps = .done r ∧ ¬IsNotFound r := by
  induction steps generalizing dir with
  | nil => exact .inl rfl
  | cons step rest ih =>
      cases step with
      | root => exact ih fun loc hloc => h loc (List.mem_cons_of_mem _ hloc)
      | here => exact ih h
      | up => exact ih fun loc hloc => h loc (List.mem_cons_of_mem _ hloc)
      | name s =>
          rw [stretch] at h
          rw [advance.eq_5, advance.eq_5]
          split
          · exact .inl rfl
          · rename_i hlong
            rw [if_neg hlong] at h
            have hrest (hd : t'.entry? (s :: dir) = some .directory) :
                ∀ loc ∈ t'.stretch (s :: dir) rest, Becomes (t.entry? loc) (t'.entry? loc) := by
              rw [if_pos hd] at h
              exact (List.forall_mem_cons.mp h).2
            have hplace : Becomes (t.entry? (s :: dir)) (t'.entry? (s :: dir)) := by
              by_cases hd : t'.entry? (s :: dir) = some .directory
              · exact hrest hd _ (head_mem_stretch t' _ _)
              · rw [if_neg hd] at h
                exact h _ (by simp)
            generalize hx : t.entry? (s :: dir) = x, hx' : t'.entry? (s :: dir) = x' at hplace
            cases hplace with
            | same =>
                rcases x with - | (_ | _ | _)
                · exact .inl rfl
                · exact .inl rfl
                · exact ih (hrest hx')
                · exact .inl rfl
            | made =>
                refine .inr (.inl ⟨_, rfl, ?_⟩)
                split
                · exact .inr ⟨_, _, rfl⟩
                · exact .inl rfl
            | written =>
                refine .inr (.inr ⟨_, rfl, ?_⟩)
                split <;> rintro (hr | ⟨_, _, hr⟩) <;> cases hr

theorem walk_isNotFound
    (h : ∀ loc ∈ t'.placesFrom links dir steps, Becomes (t.entry? loc) (t'.entry? loc))
    (hwalk : IsNotFound (t'.walk true links dir steps)) :
    IsNotFound (t.walk true links dir steps) := by
  induction links generalizing dir steps with
  | zero =>
      unfold placesFrom at h
      rcases advance_cases fun loc hloc => h loc (List.mem_append_left _ hloc) with
        hsame | ⟨r, hr, hmissing⟩ | ⟨r, hr, hfound⟩
      · unfold walk at hwalk ⊢
        rwa [hsame]
      · rwa [walk_of_done hr]
      · rw [walk_of_done hr] at hwalk
        exact absurd hwalk hfound
  | succ links ih =>
      unfold placesFrom at h
      rcases advance_cases fun loc hloc => h loc (List.mem_append_left _ hloc) with
        hsame | ⟨r, hr, hmissing⟩ | ⟨r, hr, hfound⟩
      · cases hadvance : t'.advance true dir steps with
        | done r =>
            rw [walk_of_done hadvance] at hwalk
            rwa [walk_of_done (hsame.trans hadvance)]
        | atLink dir' target rest =>
            rw [hadvance] at h hsame
            rw [walk, hadvance] at hwalk
            rw [walk, hsame]
            exact ih (fun loc hloc => h loc (List.mem_append_right _ hloc)) hwalk
      · rwa [walk_of_done hr]
      · rw [walk_of_done hr] at hwalk
        exact absurd hwalk hfound

/-- A path that is not found has not been found before. -/
theorem locate_of_becomes (hworkdir : t'.workdir = t.workdir)
    (h : ∀ loc ∈ t'.places p, Becomes (t.entry? loc) (t'.entry? loc))
    (hlocate : t'.locate p = .error .notFound) : t.locate p = .error .notFound := by
  rw [locate_eq_notFound] at hlocate ⊢
  cases hfollowed : p.isFollowed with
  | false => rwa [resolve_of_not_isFollowed hfollowed t' t true true]
  | true =>
      rw [places, if_pos hfollowed] at h
      rw [resolve_of_isFollowed hfollowed] at hlocate ⊢
      rw [← hworkdir]
      exact walk_isNotFound h hlocate

/-- A path that is not found in the later of two trees or leads there over no place that has
changed. -/
def Undisturbed (t t' : FileTree) (p : Path) : Prop :=
  t'.locate p = .error .notFound ∨ ∀ loc ∈ t'.places p, t'.entry? loc = t.entry? loc

instance (t t' : FileTree) (p : Path) : Decidable (Undisturbed t t' p) :=
  inferInstanceAs (Decidable (_ ∨ _))

theorem Undisturbed.namesAlike (hp : Undisturbed t t' p) (h : Evolves t t') :
    NamesAlike t t' p := by
  rcases hp with hmissing | hplaces
  · exact namesAlike_of_notFound
      (locate_of_becomes h.workdir (fun loc _ => h.entry loc) hmissing) hmissing
  · exact (namesAlike_of_places h.workdir.symm fun loc hloc => (hplaces loc hloc).symm).symm

end FileTree

end Preprocessor
