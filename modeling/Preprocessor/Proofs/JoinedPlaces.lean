/-
Where a path leads that a name is joined to.

If a path leads to a directory, what a name leads to from there is the entry of that name, unless
this is a link.  A path that is found leads to a directory or to a file, and if to a file then it
ends with a name.  So the names in a directory say what its paths lead to.
-/
import Mathlib.Data.List.Nodup
import Preprocessor.Proofs.MissingPlaces
import Preprocessor.Proofs.OpenFiles
import Preprocessor.Proofs.PathJoining

namespace Preprocessor

namespace FileTree

variable {t : FileTree} {dir loc : Location} {path p : Path} {name : String}
  {pre tail more rest : List Path.Component} {links : Nat} {d d' : Location} {target : Path}

/-! ## Where a joined path leads -/

/-- Steps that lead to a directory lead on from there.  A step that stays at their end may be left
out. -/
theorem advance_onward (htail : tail = [] ∨ tail = [.here])
    (h : t.advance true d (pre ++ tail) = .done (.ok (.found dir)))
    (hdir : t.entry? dir = some .directory) (more : List Path.Component) :
    t.advance true d (pre ++ more) = t.advance true dir more := by
  induction pre generalizing d with
  | nil =>
      rcases htail with rfl | rfl <;> cases h <;> rfl
  | cons step pre ih =>
      cases step with
      | root => exact ih h
      | here => exact ih h
      | up => exact ih h
      | name s =>
          rw [List.cons_append, advance.eq_5] at h ⊢
          split at h
          · cases h
          · rename_i hlong
            rw [if_neg hlong]
            split at h
            · split at h <;> cases h
            · exact ih h
            · rename_i hs
              split at h <;> cases h
              exact absurd (hdir.symm.trans hs) (by simp)
            · rw [if_neg (by simp)] at h
              cases h

theorem advance_onward_of_atLink (htail : tail = [] ∨ tail = [.here])
    (h : t.advance true d (pre ++ tail) = .atLink d' target rest) :
    ∃ front, rest = front ++ tail ∧
      ∀ more, t.advance true d (pre ++ more) = .atLink d' target (front ++ more) := by
  induction pre generalizing d with
  | nil => rcases htail with rfl | rfl <;> cases h
  | cons step pre ih =>
      cases step with
      | root => exact ih h
      | here => exact ih h
      | up => exact ih h
      | name s =>
          simp only [List.cons_append, advance.eq_5] at h ⊢
          split at h
          · cases h
          · rename_i hlong
            simp only [if_neg hlong]
            split at h
            · cases h
            · exact ih h
            · cases h
            · rw [if_neg (by simp)] at h
              cases h
              exact ⟨pre, rfl, fun more => by simp⟩

theorem walk_of_atLink {follow : Bool} {steps : List Path.Component}
    (h : t.advance follow d steps = .atLink d' target rest) :
    t.walk follow (links + 1) d steps = t.walk follow links d' (target.steps ++ rest) := by
  rw [walk, h]

theorem walk_cases {follow : Bool} {steps : List Path.Component} {e : End}
    (h : t.walk follow links d steps = .ok e) :
    t.advance follow d steps = .done (.ok e) ∨
      ∃ left d' target rest, links = left + 1 ∧
        t.advance follow d steps = .atLink d' target rest ∧
        t.walk follow left d' (target.steps ++ rest) = .ok e := by
  cases hcome : t.advance follow d steps with
  | done r =>
      rw [walk_of_done hcome] at h
      exact .inl (congrArg Progress.done h)
  | atLink d' target rest =>
      cases links with
      | zero =>
          rw [walk, hcome] at h
          cases h
      | succ left =>
          rw [walk_of_atLink hcome] at h
          exact .inr ⟨left, d', target, rest, rfl, rfl, h⟩

theorem exists_walk_onward (htail : tail = [] ∨ tail = [.here])
    (h : t.walk true links d (pre ++ tail) = .ok (.found dir))
    (hdir : t.entry? dir = some .directory) :
    ∃ left, ∀ more, t.walk true links d (pre ++ more) = t.walk true left dir more := by
  induction links using Nat.strongRecOn generalizing d pre with
  | ind links ih =>
      obtain hcome | ⟨left, d', target, rest, rfl, hcome, h⟩ := walk_cases h
      · refine ⟨links, fun more => ?_⟩
        rw [walk, walk, advance_onward htail hcome hdir more]
      · obtain ⟨front, rfl, hfront⟩ := advance_onward_of_atLink htail hcome
        rw [← List.append_assoc] at h
        obtain ⟨left', hleft⟩ := ih left (Nat.lt_succ_self left) h
        refine ⟨left', fun more => ?_⟩
        rw [walk_of_atLink (hfront more), ← List.append_assoc]
        exact hleft more

theorem text_ne_nil_of_locate (h : t.locate p = .ok loc) : p.text.toList ≠ [] := by
  intro hempty
  have htext : p.text = "" := String.toList_eq_nil_iff.mp hempty
  have hresolve := resolve_of_locate h
  rw [resolve, htext] at hresolve
  cases hresolve

theorem walk_of_locate (h : t.locate p = .ok loc) :
    t.walk true 40 t.workdir p.steps = .ok (.found loc) := by
  have hresolve := resolve_of_locate h
  rwa [resolve_of_isFollowed (isFollowed_of_resolve hresolve)] at hresolve

theorem locate_join (hpath : t.locate path = .ok dir) (hdir : t.entry? dir = some .directory)
    (hname : Path.IsEntryName name) (hlink : ∀ target, t.entry? (name :: dir) ≠ some (.link target))
    (h : t.locate (path.join ⟨name⟩) = .ok loc) : loc = name :: dir := by
  obtain ⟨pre, tail, htail, hsteps, hjoin⟩ :=
    Path.exists_steps_join hname (text_ne_nil_of_locate hpath)
  obtain ⟨left, hleft⟩ := exists_walk_onward htail (hsteps ▸ walk_of_locate hpath) hdir
  have hwalk := walk_of_locate h
  rw [hjoin, hleft] at hwalk
  unfold walk at hwalk
  rw [advance.eq_5] at hwalk
  by_cases hlong : 255 < name.utf8ByteSize
  · rw [if_pos hlong] at hwalk
    cases hwalk
  · rw [if_neg hlong] at hwalk
    cases hentry : t.entry? (name :: dir) with
    | none =>
        rw [hentry] at hwalk
        cases hwalk
    | some e =>
        rw [hentry] at hwalk
        cases e with
        | file _ => cases hwalk; rfl
        | directory => cases hwalk; rfl
        | link target => exact absurd hentry (hlink target)

/-! ## What stands where a path leads -/

theorem exists_of_advance_atLink {follow : Bool} {steps : List Path.Component}
    (h : t.advance follow d steps = .atLink d' target rest) :
    ∃ init s, steps = init ++ .name s :: rest := by
  induction steps generalizing d with
  | nil => cases h
  | cons step steps ih =>
      have hcons {d : Location} (h : t.advance follow d steps = .atLink d' target rest) :
          ∃ init s, step :: steps = init ++ .name s :: rest := by
        obtain ⟨init, s, rfl⟩ := ih h
        exact ⟨step :: init, s, rfl⟩
      cases step with
      | root => exact hcons h
      | here => exact hcons h
      | up => exact hcons h
      | name s =>
          rw [advance.eq_5] at h
          split at h
          · cases h
          · split at h
            · cases h
            · exact hcons h
            · cases h
            · split at h <;> cases h
              exact ⟨[], s, rfl⟩

theorem ends_of_advance {steps : List Path.Component} (hd : t.Stands d)
    (h : t.advance true d steps = .done (.ok (.found loc))) :
    t.Stands loc ∨
      (∃ bytes, t.entry? loc = some (.file bytes)) ∧ ∃ init s, steps = init ++ [.name s] := by
  induction steps generalizing d with
  | nil =>
      cases h
      exact .inl hd
  | cons step steps ih =>
      have hcons {d : Location} (hd : t.Stands d)
          (h : t.advance true d steps = .done (.ok (.found loc))) :
          t.Stands loc ∨ (∃ bytes, t.entry? loc = some (.file bytes)) ∧
            ∃ init s, step :: steps = init ++ [.name s] := by
        obtain hstands | ⟨hfile, init, s, rfl⟩ := ih hd h
        · exact .inl hstands
        · exact .inr ⟨hfile, step :: init, s, rfl⟩
      cases step with
      | root => exact hcons (.nil t) h
      | here => exact hcons hd h
      | up => exact hcons hd.tail h
      | name s =>
          rw [advance.eq_5] at h
          split at h
          · cases h
          · split at h
            · split at h <;> cases h
            · rename_i hs
              exact hcons (hd.cons hs) h
            · rename_i bytes hs
              split at h
              · rename_i hend
                cases h
                rw [List.isEmpty_iff.mp hend]
                exact .inr ⟨⟨bytes, hs⟩, [], s, rfl⟩
              · cases h
            · rw [if_neg (by simp)] at h
              cases h

theorem ends_of_walk {steps : List Path.Component} (hd : t.Stands d)
    (h : t.walk true links d steps = .ok (.found loc)) :
    t.Stands loc ∨
      (∃ bytes, t.entry? loc = some (.file bytes)) ∧ ∃ init s, steps = init ++ [.name s] := by
  induction links using Nat.strongRecOn generalizing d steps with
  | ind links ih =>
      obtain hcome | ⟨left, d', target, rest, rfl, hcome, h⟩ := walk_cases h
      · exact ends_of_advance hd hcome
      · refine (ih left (Nat.lt_succ_self left) (hd.advance hcome) h).imp_right ?_
        rintro ⟨hfile, init, s, hends⟩
        -- the link is a name itself, and so the steps end with a name if none is behind it
        obtain ⟨front, s', rfl⟩ := exists_of_advance_atLink hcome
        refine ⟨hfile, ?_⟩
        rcases List.eq_nil_or_concat' rest with rfl | ⟨rest, last, rfl⟩
        · exact ⟨front, s', rfl⟩
        · rw [← List.append_assoc] at hends
          obtain rfl := List.singleton_inj.mp (List.append_inj_right' hends rfl)
          exact ⟨front ++ .name s' :: rest, s, by simp⟩

theorem ends_of_locate (ht : t.Stands t.workdir) (h : t.locate p = .ok loc) :
    t.entry? loc = some .directory ∨
      (∃ bytes, t.entry? loc = some (.file bytes)) ∧ ∃ init s, p.steps = init ++ [.name s] :=
  (ends_of_walk ht (walk_of_locate h)).imp_left fun hstands => hstands loc List.suffix_rfl

theorem isFile_iff_entry :
    t.isFile p = true ↔
      ∃ loc, t.locate p = .ok loc ∧ ∃ bytes, t.entry? loc = some (.file bytes) := by
  simp only [isFile_iff, isFileAt_iff]

/-! ## Names in a directory -/

/-- A tree as a file system holds it: with one entry at a place, under a proper name, and a working
directory that stands. -/
structure Wellformed (t : FileTree) : Prop where
  distinct : (t.entries.map Prod.fst).Nodup
  named : ∀ loc ∈ t.entries.map Prod.fst, ∀ name ∈ loc, Path.IsEntryName name
  stands : t.Stands t.workdir

instance (t : FileTree) : Decidable t.Wellformed :=
  decidable_of_iff
    ((t.entries.map Prod.fst).Nodup ∧
      (∀ loc ∈ t.entries.map Prod.fst, ∀ name ∈ loc, Path.IsEntryName name) ∧ t.Stands t.workdir)
    ⟨fun h => ⟨h.1, h.2.1, h.2.2⟩, fun h => ⟨h.distinct, h.named, h.stands⟩⟩

theorem names_eq (t : FileTree) (dir : Location) :
    t.names dir = (t.entries.map Prod.fst).filterMap fun loc =>
      if loc.tail == dir then loc.head? else none := by
  rw [List.filterMap_map]
  refine List.filterMap_congr fun entry _ => ?_
  obtain ⟨loc, e⟩ := entry
  cases loc with
  | nil => simp
  | cons s outer => rfl

theorem mem_names_iff : name ∈ t.names dir ↔ name :: dir ∈ t.entries.map Prod.fst := by
  rw [names_eq, List.mem_filterMap]
  constructor
  · rintro ⟨loc, hloc, hname⟩
    cases loc with
    | nil => simp at hname
    | cons s outer =>
        obtain ⟨rfl, rfl⟩ : outer = dir ∧ s = name := by simpa using hname
        exact hloc
  · intro h
    exact ⟨name :: dir, h, by simp⟩

theorem mem_names_iff_entry : name ∈ t.names dir ↔ ∃ e, t.entry? (name :: dir) = some e := by
  rw [mem_names_iff, ← Option.isSome_iff_exists]
  change _ ↔ (t.entries.lookup (name :: dir)).isSome = true
  rw [List.lookup_isSome_iff]
  simp

theorem Wellformed.nodup_names (ht : t.Wellformed) (dir : Location) : (t.names dir).Nodup := by
  rw [names_eq]
  refine List.Nodup.filterMap ?_ ht.distinct
  intro loc loc' name h h'
  cases loc with
  | nil => simp at h
  | cons s outer =>
      cases loc' with
      | nil => simp at h'
      | cons s' outer' =>
          obtain ⟨rfl, rfl⟩ : outer = dir ∧ s = name := by simpa using h
          obtain ⟨rfl, rfl⟩ : outer' = outer ∧ s' = s := by simpa using h'
          rfl

theorem Wellformed.isEntryName (ht : t.Wellformed) (h : name ∈ t.names dir) :
    Path.IsEntryName name :=
  ht.named _ (mem_names_iff.mp h) name List.mem_cons_self

end FileTree

end Preprocessor
