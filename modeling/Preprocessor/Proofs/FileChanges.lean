/-
What committing output changes in a file tree.

Making directories adds directories where nothing stood.  Replacing an entry puts one file at one
place, which the path of the output names if a link at its end is not followed.  So a commit that
fails leaves every file and every link, and one that writes changes no other place.  The output is
found again under its path.  Only a path that leads through the very link that it replaces leads
nowhere afterwards.
-/
import Mathlib.Data.List.DropRight
import Preprocessor.Commit
import Preprocessor.Proofs.FileRewriting

namespace Preprocessor

namespace FileTree

variable {t t₁ t₂ t' : FileTree} {p : Path} {loc : Location} {bytes : List UInt8}

/-! ## Directories that are added -/

/-- Two trees of which the second has all that the first has, and else only directories. -/
structure Grows (t t' : FileTree) : Prop where
  workdir : t'.workdir = t.workdir
  entry : ∀ loc, t'.entry? loc = t.entry? loc ∨
    t.entry? loc = none ∧ t'.entry? loc = some .directory

namespace Grows

theorem refl (t : FileTree) : Grows t t :=
  ⟨rfl, fun _ => .inl rfl⟩

theorem trans (h : Grows t t₁) (h' : Grows t₁ t₂) : Grows t t₂ where
  workdir := h'.workdir.trans h.workdir
  entry loc := by
    rcases h.entry loc with heq | ⟨hnone, hdirectory⟩
    · rw [← heq]
      exact h'.entry loc
    · rcases h'.entry loc with heq' | ⟨hnone', -⟩
      · exact .inr ⟨hnone, heq'.trans hdirectory⟩
      · rw [hdirectory] at hnone'
        cases hnone'

/-- Where no directory stands afterwards, all is as before. -/
theorem entry_eq (h : Grows t t') (hloc : t'.entry? loc ≠ some .directory) :
    t'.entry? loc = t.entry? loc :=
  (h.entry loc).resolve_right fun hnew => hloc hnew.2

end Grows

theorem entry?_of_advance {follow : Bool} {dir dir' : Location} {steps : List Path.Component}
    {name : String} (h : t.advance follow dir steps = .done (.ok (.missing dir' name))) :
    t.entry? (name :: dir') = none := by
  induction steps generalizing dir with
  | nil => cases h
  | cons step rest ih =>
      cases step with
      | root => exact ih h
      | here => exact ih h
      | up => exact ih h
      | name s =>
          rw [advance] at h
          split at h
          · cases h
          · split at h
            · rename_i hnone
              split at h
              · cases h
                exact hnone
              · cases h
            · exact ih h
            · split at h <;> cases h
            · split at h <;> cases h

theorem entry?_of_walk {follow : Bool} {links : Nat} {dir dir' : Location}
    {steps : List Path.Component} {name : String}
    (h : t.walk follow links dir steps = .ok (.missing dir' name)) :
    t.entry? (name :: dir') = none := by
  induction links generalizing dir steps with
  | zero =>
      unfold walk at h
      split at h
      · rename_i hdone
        rw [h] at hdone
        exact entry?_of_advance hdone
      · cases h
  | succ links ih =>
      unfold walk at h
      split at h
      · rename_i hdone
        rw [h] at hdone
        exact entry?_of_advance hdone
      · exact ih h

theorem resolve_eq_walk {follow : Bool} {e : End} (h : t.resolve follow p = .ok e)
    (t' : FileTree) (follow' : Bool) :
    t'.resolve follow' p = t'.walk follow' 40 t'.workdir p.steps := by
  unfold resolve at h
  split at h
  · cases h
  · rename_i hempty
    split at h
    · cases h
    · rename_i hnul
      split at h
      · cases h
      · rename_i hlong
        rw [resolve, if_neg hempty, if_neg hnul, if_neg hlong]

theorem entry?_of_resolve {follow : Bool} {dir : Location} {name : String}
    (h : t.resolve follow p = .ok (.missing dir name)) : t.entry? (name :: dir) = none := by
  rw [resolve_eq_walk h] at h
  exact entry?_of_walk h

theorem grows_put (hloc : loc ≠ []) (h : t.entry? loc = none) :
    Grows t (t.put loc .directory) where
  workdir := rfl
  entry l := by
    rw [entry?_put hloc]
    split
    · rename_i hl
      rw [hl]
      exact .inr ⟨h, rfl⟩
    · exact .inl rfl

theorem grows_ensureDirectory (t : FileTree) (p : Path) : Grows t (t.ensureDirectory p).2 := by
  unfold ensureDirectory makeDirectory
  cases hplace : t.resolve false (withoutEndSlashes p) with
  | error e => exact .refl t
  | ok place =>
      cases place with
      | found loc => exact .refl t
      | missing dir name =>
          exact grows_put (List.cons_ne_nil _ _) (entry?_of_resolve hplace)

theorem grows_makeDirectoriesUpTo (t : FileTree) (limit : Nat) (p : Path) :
    Grows t (t.makeDirectoriesUpTo limit p).2 := by
  induction limit generalizing p with
  | zero => exact .refl t
  | succ limit ih =>
      rw [makeDirectoriesUpTo]
      split
      · exact .refl t
      · have hfirst := grows_ensureDirectory t p
        split
        · split
          · exact .refl t
          · rename_i outer _
            have houter := ih outer
            split <;> rename_i hmade <;> rw [hmade] at houter
            · exact houter
            · exact houter.trans (grows_ensureDirectory _ p)
        · exact hfirst

section

variable {r : Except OsError Unit}

theorem grows_of_ensureDirectory (h : t.ensureDirectory p = (r, t')) : Grows t t' := by
  have hgrows := grows_ensureDirectory t p
  rwa [h] at hgrows

theorem grows_of_makeDirectoriesUpTo {limit : Nat} (h : t.makeDirectoriesUpTo limit p = (r, t')) :
    Grows t t' := by
  have hgrows := grows_makeDirectoriesUpTo t limit p
  rwa [h] at hgrows

end

theorem grows_makeDirectories (t : FileTree) (p : Path) : Grows t (t.makeDirectories p).2 :=
  grows_makeDirectoriesUpTo t _ p

/-! ## An entry that is replaced -/

def End.location : End → Location
  | found loc => loc
  | missing dir name => name :: dir

def IsLink (t : FileTree) (loc : Location) : Prop :=
  ∃ target, t.entry? loc = some (.link target)

/-- Two ways of following a path up to the first link: if the first ends at a location, the second
finds an entry there, and if the first comes to a link, the second comes to it too.  The second may
also get stuck at the location, where the first has a link. -/
def Progress.EndsAlike (t : FileTree) (loc : Location) (p q : Progress) : Prop :=
  (IsLink t loc ∧ q = .done (.error .notADirectory)) ∨
    match p with
    | .done (.ok e) => e.location = loc → q = .done (.ok (.found loc))
    | .done (.error _) => True
    | .atLink dir target rest =>
      q = .atLink dir target rest ∧ ∃ init s, rest = init ++ [.name s]

/-- Steps of which the last is a name are followed alike once a file has taken the place of what
is no directory, and a link that is left at the end in the one tree is that file in the other. -/
theorem advance_put (hne : loc ≠ []) (hloc : t.entry? loc ≠ some .directory)
    (bytes : List UInt8) (dir : Location) (init : List Path.Component) (s : String) :
    (t.advance false dir (init ++ [.name s])).EndsAlike t loc
      ((t.put loc (.file bytes)).advance true dir (init ++ [.name s])) := by
  induction init generalizing dir with
  | nil =>
      rw [List.nil_append, advance.eq_5, advance.eq_5]
      split
      · exact .inr True.intro
      · rw [entry?_put hne]
        by_cases hs : s :: dir = loc
        · subst hs
          rw [if_pos rfl]
          cases hentry : t.entry? (s :: dir) with
          | none => exact .inr fun _ => rfl
          | some e =>
              cases e with
              | file _ => exact .inr fun _ => rfl
              | directory => exact absurd hentry hloc
              | link _ => exact .inr fun _ => rfl
        · rw [if_neg hs]
          cases t.entry? (s :: dir) with
          | none => exact .inr fun h => absurd h hs
          | some e => cases e <;> exact .inr fun h => absurd h hs
  | cons step init ih =>
      cases step with
      | root => exact ih []
      | here => exact ih dir
      | up => exact ih dir.tail
      | name s' =>
          have hrest : (init ++ [Path.Component.name s]).isEmpty = false := by simp
          rw [List.cons_append, advance.eq_5, advance.eq_5, hrest]
          split
          · exact .inr True.intro
          · rw [entry?_put hne]
            by_cases hs : s' :: dir = loc
            · subst hs
              rw [if_pos rfl]
              cases hentry : t.entry? (s' :: dir) with
              | none => exact .inr True.intro
              | some e =>
                  cases e with
                  | file _ => exact .inr True.intro
                  | directory => exact absurd hentry hloc
                  | link target => exact .inl ⟨⟨target, hentry⟩, rfl⟩
            · rw [if_neg hs]
              cases t.entry? (s' :: dir) with
              | none => exact .inr True.intro
              | some e =>
                  cases e with
                  | file _ => exact .inr True.intro
                  | directory => exact ih (s' :: dir)
                  | link target => exact .inr ⟨rfl, init, s, rfl⟩

theorem walk_of_done {follow : Bool} {links : Nat} {dir : Location}
    {steps : List Path.Component} {r : Except OsError End}
    (h : t.advance follow dir steps = .done r) : t.walk follow links dir steps = r := by
  unfold walk
  rw [h]

theorem walk_put (hne : loc ≠ []) (hloc : t.entry? loc ≠ some .directory)
    (bytes : List UInt8) {links : Nat} {dir : Location} {steps init : List Path.Component}
    {s : String} (hsteps : steps = init ++ [.name s]) {e : End}
    (hwalk : t.walk false links dir steps = .ok e) (he : e.location = loc) :
    (t.put loc (.file bytes)).walk true links dir steps = .ok (.found loc) ∨
      IsLink t loc ∧
        (t.put loc (.file bytes)).walk true links dir steps = .error .notADirectory := by
  fun_induction walk t false links dir steps generalizing init s with
  | case1 links dir steps r hdone =>
      subst hsteps hwalk
      rcases advance_put hne hloc bytes dir init s with ⟨hlink, hstuck⟩ | hsame
      · exact .inr ⟨hlink, walk_of_done hstuck⟩
      · rw [hdone] at hsame
        exact .inl (walk_of_done (hsame he))
  | case2 => cases hwalk
  | case3 dir steps dir' target rest hcome links ih =>
      subst hsteps
      rcases advance_put hne hloc bytes dir init s with ⟨hlink, hstuck⟩ | hsame
      · exact .inr ⟨hlink, walk_of_done hstuck⟩
      · rw [hcome] at hsame
        obtain ⟨hcome', init', s', rfl⟩ := hsame
        rw [walk, hcome']
        exact ih (List.append_assoc ..).symm hwalk

theorem resolve_put (hne : loc ≠ []) (hloc : t.entry? loc ≠ some .directory)
    (bytes : List UInt8) {init : List Path.Component} {s : String}
    (hsteps : p.steps = init ++ [.name s]) {e : End} (hresolve : t.resolve false p = .ok e)
    (he : e.location = loc) :
    (t.put loc (.file bytes)).resolve true p = .ok (.found loc) ∨
      IsLink t loc ∧ (t.put loc (.file bytes)).resolve true p = .error .notADirectory := by
  have hwalk := resolve_eq_walk hresolve
  rw [hwalk] at hresolve ⊢
  exact walk_put hne hloc bytes hsteps hresolve he

theorem withoutEndSlashes_eq (h : endsInSlash p = false) : withoutEndSlashes p = p := by
  have hlast : ∀ hne : p.text.toList ≠ [], ¬ (p.text.toList.getLast hne == '/') = true := by
    intro hne hslash
    rw [endsInSlash, List.getLast?_eq_some_getLast hne, beq_iff_eq.mp hslash] at h
    exact absurd h (by decide)
  have hkept : (p.text.toList.reverse.dropWhile (· == '/')).reverse = p.text.toList :=
    List.rdropWhile_eq_self_iff.mpr hlast
  unfold withoutEndSlashes
  dsimp only
  rw [hkept, String.ofList_toList]
  split <;> rfl

theorem exists_name_of_endsInDots (h : endsInDots p = false) (hslash : endsInSlash p = false) :
    ∃ init s, p.steps = init ++ [.name s] := by
  unfold endsInDots at h
  rw [withoutEndSlashes_eq hslash] at h
  split at h
  · rename_i s hlast
    obtain ⟨init, hinit⟩ := List.getLast?_eq_some_iff.mp hlast
    exact ⟨init, s, hinit⟩
  · cases h

/-- What takes the place of an entry is a file at the end of the path, where no directory is. -/
theorem exists_of_replace (h : t.replace p bytes = .ok t') :
    ∃ e, t.resolve false p = .ok e ∧ e.location ≠ [] ∧
      t.entry? e.location ≠ some .directory ∧ t' = t.put e.location (.file bytes) ∧
      ∃ init s, p.steps = init ++ [.name s] := by
  unfold replace at h
  split at h
  · cases h
  · rename_i place hplace
    split at h
    · cases h
    · rename_i hdots
      split at h
      · cases h
      · rename_i hslash
        have hslash := eq_false_of_ne_true hslash
        have hname := exists_name_of_endsInDots (eq_false_of_ne_true hdots) hslash
        rw [withoutEndSlashes_eq hslash] at hplace
        refine ⟨place, hplace, ?_⟩
        cases place with
        | missing dir name =>
            cases h
            have hnone := entry?_of_resolve hplace
            refine ⟨List.cons_ne_nil _ _, fun hdirectory => ?_, rfl, hname⟩
            exact absurd (hnone.symm.trans hdirectory) (by decide)
        | found loc =>
            dsimp only at h
            split at h
            · cases h
            · rename_i hdirectory
              cases h
              refine ⟨fun hroot => hdirectory ?_, hdirectory, rfl, hname⟩
              rw [show loc = [] from hroot]
              rfl

/-! ## Committing -/

/-- The place where output for a path is put: the end of the path, once its directory is made. -/
def outputLocation? (t : FileTree) (p : Path) : Option Location :=
  ((t.makeDirectories (directoryFor p)).2.resolve false p).toOption.map End.location

/-- Two trees of which the second has the output for a path.  Nothing else has changed, but for
directories that were added.  The path names the output, unless it led through a link in the place
of the output. -/
structure Outputs (t t' : FileTree) (p : Path) (loc : Location) (bytes : List UInt8) : Prop where
  location : t.outputLocation? p = some loc
  content : t'.entry? loc = some (.file bytes)
  replaced : t.entry? loc ≠ some .directory
  others : ∀ l, l ≠ loc →
    t'.entry? l = t.entry? l ∨ t.entry? l = none ∧ t'.entry? l = some .directory
  read : t'.read p = .ok bytes ∨ IsLink t loc ∧ t'.read p = .error .notADirectory

theorem read_of_hasContent (h : t.hasContent p bytes = true) : t.read p = .ok bytes := by
  unfold hasContent at h
  split at h
  · rename_i content hread
    rw [hread, beq_iff_eq.mp h]
  · cases h

theorem outputs_of_replace (h : t₁.replace p bytes = .ok t') (hgrows : Grows t t₁)
    (hmade : (t.makeDirectories (directoryFor p)).2 = t₁) :
    ∃ loc, Outputs t t' p loc bytes := by
  obtain ⟨e, hresolve, hne, hentry, rfl, init, s, hsteps⟩ := exists_of_replace h
  have hcontent := entry?_put (t := t₁) hne (.file bytes)
  have hsame := hgrows.entry_eq hentry
  refine ⟨e.location, ?_, ?_, hsame ▸ hentry, fun l hl => ?_, ?_⟩
  · rw [outputLocation?, hmade, hresolve]
    rfl
  · rw [hcontent, if_pos rfl]
  · rw [hcontent, if_neg hl]
    exact hgrows.entry l
  · unfold read locate
    rcases resolve_put hne hentry bytes hsteps hresolve rfl with hfound | ⟨⟨target, hlink⟩, hstuck⟩
    · rw [hfound]
      dsimp only
      rw [hcontent, if_pos rfl]
      exact .inl rfl
    · rw [hstuck]
      exact .inr ⟨⟨target, hsame ▸ hlink⟩, rfl⟩

theorem replace_of_fill {disk : Disk} (h : t.fill disk p bytes = .ok t') :
    t.replace p bytes = .ok t' := by
  unfold fill at h
  split at h
  · cases h
  · split at h
    · cases h
    · rename_i hreplace
      cases h
      exact hreplace

/-- Output is put where it belongs, or it fails to be, when its directory is made or after that. -/
theorem place_cases {disk : Disk} {r : Except Fault Commit}
    (h : t.place disk p bytes = (r, t')) :
    (∃ e, t.makeDirectories (directoryFor p) = (.error e, t') ∧
        r = .error (.file (.createDirectory e) (directoryFor p))) ∨
      ∃ t₁, t.makeDirectories (directoryFor p) = (.ok (), t₁) ∧
        ((∃ fault, t₁.fill disk p bytes = .error fault ∧ r = .error fault ∧ t' = t₁) ∨
          t₁.fill disk p bytes = .ok t' ∧ r = .ok .written) := by
  unfold place at h
  split at h
  · rename_i e t₁ hmade
    cases h
    exact .inl ⟨e, hmade, rfl⟩
  · rename_i t₁ hmade
    refine .inr ⟨t₁, hmade, ?_⟩
    split at h
    · rename_i fault hfill
      cases h
      exact .inl ⟨fault, hfill, rfl, rfl⟩
    · rename_i t₂ hfill
      cases h
      exact .inr ⟨hfill, rfl⟩

/-- A commit writes nothing, finds the output in its place, puts it there, or fails.  In all cases
but the third every file and every link stays. -/
theorem commit_cases {disk : Disk} {options : CommitOptions} {r : Except Fault Commit}
    (h : t.commit disk options p bytes = (r, t')) :
    (r = .ok .dryRun ∧ t' = t) ∨ (r = .ok .unchanged ∧ t' = t ∧ t.read p = .ok bytes) ∨
      (r = .ok .written ∧ ∃ loc, Outputs t t' p loc bytes) ∨
      ((∃ fault, r = .error fault) ∧ Grows t t') := by
  unfold commit at h
  split at h
  · cases h
    exact .inl ⟨rfl, rfl⟩
  · split at h
    · rename_i hsame
      cases h
      exact .inr (.inl ⟨rfl, rfl, read_of_hasContent (Bool.and_eq_true_iff.mp hsame).2⟩)
    · have hgrows := grows_makeDirectories t (directoryFor p)
      rcases place_cases h with ⟨e, hmade, rfl⟩ | ⟨t₁, hmade, hfill⟩ <;> rw [hmade] at hgrows
      · exact .inr (.inr (.inr ⟨⟨_, rfl⟩, hgrows⟩))
      · rcases hfill with ⟨fault, -, rfl, rfl⟩ | ⟨hfill, rfl⟩
        · exact .inr (.inr (.inr ⟨⟨_, rfl⟩, hgrows⟩))
        · have hmade' := congrArg Prod.snd hmade
          have houtputs := outputs_of_replace (replace_of_fill hfill) hgrows hmade'
          exact .inr (.inr (.inl ⟨rfl, houtputs⟩))

/-- A disk that is full: what was there stays. -/
example :
    let t : FileTree := { entries := [(["out"], .directory), (["a", "out"], .file [1])] }
    let disk : Disk := { refusesBytes := fun _ _ => some (.other "No space left on device") }
    let o := t.commit disk {} ⟨"out/a"⟩ [2]
    o.1.toOption = none ∧ o.2.entries = t.entries ∧ (t.commit {} {} ⟨"out/a"⟩ [2]).1.isOk := by
  decide +kernel

end FileTree

end Preprocessor
