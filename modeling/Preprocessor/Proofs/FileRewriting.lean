/-
A file with a new content.

Paths are followed through names, links and kinds of entries; what a file contains has no part in
it.  A tree in which a file is written anew therefore has the same files under the same paths, and
all but that one read as before.
-/
import Preprocessor.FileTree.Write
import Preprocessor.Proofs.OpenFiles

namespace Preprocessor

def Entry.outline : Entry → Entry
  | file _ => file []
  | e => e

namespace FileTree

variable {t t' : FileTree}

def outlineAt (t : FileTree) (loc : Location) : Option Entry :=
  Option.map Entry.outline <| t.entry? loc

/-- Two trees with the same kinds of entries at the same locations. -/
structure SameOutline (t t' : FileTree) : Prop where
  workdir : t'.workdir = t.workdir
  entry : ∀ loc, t'.outlineAt loc = t.outlineAt loc

namespace SameOutline

theorem advance (h : SameOutline t t') (follow : Bool) (dir : Location)
    (steps : List Path.Component) : t'.advance follow dir steps = t.advance follow dir steps := by
  induction steps generalizing dir with
  | nil => rfl
  | cons step rest ih =>
      cases step with
      | root => exact ih []
      | here => exact ih dir
      | up => exact ih dir.tail
      | name s =>
          have hentry := h.entry (s :: dir)
          unfold outlineAt at hentry
          rw [FileTree.advance, FileTree.advance]
          generalize t'.entry? (s :: dir) = x', t.entry? (s :: dir) = x at hentry ⊢
          split
          · rfl
          · rcases x with - | (_ | _ | _) <;> rcases x' with - | (_ | _ | _) <;> cases hentry
            · rfl
            · rfl
            · exact ih (s :: dir)
            · rfl

theorem walk (h : SameOutline t t') (follow : Bool) (links : Nat) (dir : Location)
    (steps : List Path.Component) :
    t'.walk follow links dir steps = t.walk follow links dir steps := by
  induction links generalizing dir steps with
  | zero =>
      unfold FileTree.walk
      rw [h.advance]
  | succ links ih =>
      unfold FileTree.walk
      rw [h.advance]
      split
      · rfl
      · exact ih _ _

theorem locate (h : SameOutline t t') (p : Path) : t'.locate p = t.locate p := by
  unfold FileTree.locate resolve
  rw [h.workdir]
  simp only [h.walk]

theorem canonical (h : SameOutline t t') (p : Path) : t'.canonical p = t.canonical p := by
  rw [FileTree.canonical, h.locate, FileTree.canonical]

theorem isFile (h : SameOutline t t') (p : Path) : t'.isFile p = t.isFile p := by
  unfold FileTree.isFile find?
  rw [h.locate]
  cases t.locate p with
  | error e => rfl
  | ok loc =>
      have hentry := h.entry loc
      unfold outlineAt at hentry
      dsimp only
      generalize t'.entry? loc = x', t.entry? loc = x at hentry ⊢
      rcases x with - | (_ | _ | _) <;> rcases x' with - | (_ | _ | _) <;> cases hentry <;> rfl

end SameOutline

/-! ## Writing -/

theorem lookup_setEntry (loc l : Location) (e : Entry) (entries : List (Location × Entry)) :
    (setEntry loc e entries).lookup l = if l = loc then some e else entries.lookup l := by
  induction entries with
  | nil =>
      by_cases hl : l = loc
      · simp [setEntry, hl]
      · simp [setEntry, List.lookup_cons, hl, beq_false_of_ne hl]
  | cons entry rest ih =>
      rcases entry with ⟨loc', old⟩
      rw [setEntry]
      by_cases hloc : loc' = loc
      · subst hloc
        rw [if_pos (beq_self_eq_true _)]
        by_cases hl : l = loc'
        · simp [hl]
        · simp [List.lookup_cons, hl, beq_false_of_ne hl]
      · rw [if_neg (by simpa using hloc)]
        by_cases hl : l = loc'
        · simp [hl, hloc]
        · simp [List.lookup_cons, beq_false_of_ne hl, ih]

theorem lookup_filter_location (keeps : Location → Bool) (loc : Location)
    (entries : List (Location × Entry)) :
    (entries.filter fun entry => keeps entry.1).lookup loc =
      if keeps loc then entries.lookup loc else none := by
  induction entries with
  | nil => simp
  | cons entry rest ih =>
      rcases entry with ⟨l, e⟩
      by_cases hl : loc = l
      · subst hl
        cases hkeeps : keeps loc with
        | true => simp [hkeeps]
        | false => simpa [hkeeps] using ih
      · rw [List.lookup_cons, beq_false_of_ne hl, ← ih, List.filter_cons]
        split
        · rw [List.lookup_cons, beq_false_of_ne hl]
        · rfl

theorem entry?_put {loc : Location} (hloc : loc ≠ []) (e : Entry) (l : Location) :
    FileTree.entry? (t.put loc e) l = if l = loc then some e else t.entry? l := by
  cases l with
  | nil => rw [if_neg hloc.symm]; rfl
  | cons s dir => exact lookup_setEntry loc (s :: dir) e t.entries

variable {loc : Location} {old : List UInt8}

theorem ne_nil_of_file (h : t.entry? loc = some (.file old)) : loc ≠ [] := by
  rintro rfl
  cases h

theorem sameOutline_put (h : t.entry? loc = some (.file old)) (bytes : List UInt8) :
    SameOutline t (t.put loc (.file bytes)) where
  workdir := rfl
  entry l := by
    unfold outlineAt
    rw [entry?_put (ne_nil_of_file h)]
    split
    · rename_i hl
      rw [hl, h]
      rfl
    · rfl

theorem files_put (h : t.entry? loc = some (.file old)) (bytes : List UInt8) :
    (t.put loc (.file bytes)).files = t.files := by
  have hlookup : t.entries.lookup loc = some (.file old) := by
    cases loc with
    | nil => cases h
    | cons s dir => exact h
  clear h
  rcases t with ⟨entries, workdir⟩
  unfold files put
  dsimp only at hlookup ⊢
  induction entries with
  | nil => cases hlookup
  | cons entry rest ih =>
      rcases entry with ⟨loc', old'⟩
      rw [setEntry]
      by_cases hloc : loc' = loc
      · subst hloc
        rw [List.lookup_cons_self] at hlookup
        cases hlookup
        rw [if_pos (beq_self_eq_true _)]
        rfl
      · rw [List.lookup_cons, beq_false_of_ne (Ne.symm hloc)] at hlookup
        rw [if_neg (by simpa using hloc), List.filterMap_cons, List.filterMap_cons, ih hlookup]

/-- A tree in which a file has a new content. -/
structure Rewrites (t t' : FileTree) (p : Path) (bytes : List UInt8) : Prop where
  outline : SameOutline t t'
  files : t'.files = t.files
  content : t'.read p = .ok bytes
  others : ∀ q, t.canonical q ≠ t.canonical p → t'.read q = t.read q

/-- A file that can be read can be written anew. -/
theorem exists_of_read {p : Path} (h : t.read p = .ok old) (bytes : List UInt8) :
    ∃ t', t.write p bytes = .ok t' ∧ Rewrites t t' p bytes := by
  unfold read at h
  split at h
  · cases h
  · rename_i loc hloc
    split at h
    · rename_i bytes' hentry
      cases h
      have hout := sameOutline_put hentry bytes
      have hput := entry?_put (t := t) (ne_nil_of_file hentry) (.file bytes)
      refine ⟨t.put loc (.file bytes), ?_, hout, files_put hentry bytes, ?_, ?_⟩
      · have hplace : t.fileLocation p = .ok loc := by
          unfold locate at hloc
          unfold fileLocation
          split at hloc
          · rename_i loc' hresolve
            cases hloc
            rw [hresolve]
          · cases hloc
          · cases hloc
        rw [write, updateFile, hplace]
        dsimp only
        rw [hentry]
      · rw [read, hout.locate, hloc]
        dsimp only
        rw [hput, if_pos rfl]
      · intro q hq
        unfold read
        rw [hout.locate]
        cases hlocq : t.locate q with
        | error e => rfl
        | ok locq =>
            have hne : locq ≠ loc := by
              rintro rfl
              exact hq ((canonical_of_locate hlocq).trans (canonical_of_locate hloc).symm)
            dsimp only
            rw [hput, if_neg hne]
    · cases h
    · cases h

end FileTree

end Preprocessor
