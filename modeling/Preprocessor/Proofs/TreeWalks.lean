/-
What a walk finds below a path.

In a tree of distinct places with proper names, a walk that succeeds finds every file that names
lead to from its path, links being followed, unless they lead through a directory that is skipped;
and it finds each one once.  It fails only where a directory cannot be opened, a link leads
nowhere, or a link leads back to a directory that the walk is in.  The depth that it is allowed
suffices: a step into a directory leaves fewer places below, and a step through a link leaves
fewer directories that the walk is not in.

The measure for the depth has two parts, compared in this order: the directories that the walk is
not in, and the places below the directory where it is.  A link may lead upwards and so make the
second part grow, but then the first part has become smaller, or else the walk fails because the
link leads back to where it came from.
-/
import Mathlib.Data.Finset.Card
import Preprocessor.FileTree.Walk
import Preprocessor.Proofs.Computation
import Preprocessor.Proofs.JoinedPlaces

namespace Preprocessor

namespace FileTree

variable {t : FileTree} {skips : String → Bool} {dir loc : Location} {path q : Path}
  {name : String} {names rest : List String} {walk : Walk}

/-! ## Files that names lead to -/

/-- A path leads to a directory that has a name. -/
def Holds (t : FileTree) (path : Path) (dir : Location) (name : String) : Prop :=
  t.locate path = .ok dir ∧ t.entry? dir = some .directory ∧ name ∈ t.names dir

/-- A name in a directory is that of a file, or of a link to one. -/
def NamesFile (t : FileTree) (path : Path) (dir : Location) (name : String) : Prop :=
  (∃ bytes, t.entry? (name :: dir) = some (.file bytes)) ∨
    (∃ target, t.entry? (name :: dir) = some (.link target)) ∧ t.isFile (path.join ⟨name⟩) = true

/-- Names that lead from a path to a file: the last one names the file, and those before it lead to
directories. -/
inductive LeadsToFile (t : FileTree) : Path → List String → Prop
  | file {path : Path} {dir : Location} {name : String} (h : t.Holds path dir name)
      (hfile : t.NamesFile path dir name) : LeadsToFile t path [name]
  | through {path : Path} {dir : Location} {name : String} {names : List String}
      (h : t.Holds path dir name) (hrest : LeadsToFile t (path.join ⟨name⟩) names) :
      LeadsToFile t path (name :: names)

/-- A file that names lead to through no directory that is skipped. -/
def Reaches (t : FileTree) (skips : String → Bool) (path : Path) (names : List String) (q : Path) :
    Prop :=
  t.LeadsToFile path names ∧ (∀ name ∈ names.dropLast, skips name = false) ∧
    q = path.descend names

namespace LeadsToFile

theorem ne_nil (h : t.LeadsToFile path names) : names ≠ [] := by
  cases h <;> exact List.cons_ne_nil _ _

theorem exists_directory (h : t.LeadsToFile path names) :
    ∃ dir, t.locate path = .ok dir ∧ t.entry? dir = some .directory := by
  cases h with
  | file h _ => exact ⟨_, h.1, h.2.1⟩
  | through h _ => exact ⟨_, h.1, h.2.1⟩

theorem exists_cons (h : t.LeadsToFile path names) (hdir : t.locate path = .ok dir) :
    ∃ name rest, name ∈ t.names dir ∧ names = name :: rest := by
  cases h with
  | file h _ =>
      obtain rfl := Except.ok.inj (hdir.symm.trans h.1)
      exact ⟨_, _, h.2.2, rfl⟩
  | through h _ =>
      obtain rfl := Except.ok.inj (hdir.symm.trans h.1)
      exact ⟨_, _, h.2.2, rfl⟩

theorem isEntryName (ht : t.Wellformed) (h : t.LeadsToFile path names) :
    ∀ name ∈ names, Path.IsEntryName name := by
  induction h with
  | file h _ =>
      rintro _ (_ | ⟨_, ⟨⟩⟩)
      exact ht.isEntryName h.2.2
  | through h _ ih => exact List.forall_mem_cons.mpr ⟨ht.isEntryName h.2.2, ih⟩

end LeadsToFile

theorem leadsToFile_cons_iff (h : t.Holds path dir name) :
    t.LeadsToFile path (name :: rest) ↔
      rest = [] ∧ t.NamesFile path dir name ∨ t.LeadsToFile (path.join ⟨name⟩) rest := by
  constructor
  · intro hleads
    cases hleads with
    | file h' hfile =>
        obtain rfl := Except.ok.inj (h.1.symm.trans h'.1)
        exact .inl ⟨rfl, hfile⟩
    | through _ hrest => exact .inr hrest
  · rintro (⟨rfl, hfile⟩ | hrest)
    · exact .file h hfile
    · exact .through h hrest

/-- No path leads on through the name of a file. -/
theorem NamesFile.entry_ne (ht : t.Wellformed) (h : t.Holds path dir name)
    (hfile : t.NamesFile path dir name) (hloc : t.locate (path.join ⟨name⟩) = .ok loc) :
    t.entry? loc ≠ some .directory := by
  obtain ⟨hpath, hdir, hname⟩ := h
  intro hentry
  rcases hfile with ⟨bytes, hfile⟩ | ⟨-, hfile⟩
  · obtain rfl := locate_join hpath hdir (ht.isEntryName hname) (by simp [hfile]) hloc
    exact absurd (hfile.symm.trans hentry) (by simp)
  · obtain ⟨loc', hloc', bytes, hfile⟩ := isFile_iff_entry.mp hfile
    obtain rfl := Except.ok.inj (hloc.symm.trans hloc')
    exact absurd (hfile.symm.trans hentry) (by simp)

theorem reaches_cons_of_namesFile (ht : t.Wellformed) (h : t.Holds path dir name)
    (hfile : t.NamesFile path dir name) :
    t.Reaches skips path (name :: rest) q ↔ rest = [] ∧ q = path.join ⟨name⟩ := by
  have hrest : ¬t.LeadsToFile (path.join ⟨name⟩) rest := by
    intro hleads
    obtain ⟨loc, hloc, hdir⟩ := hleads.exists_directory
    exact hfile.entry_ne ht h hloc hdir
  unfold Reaches
  rw [leadsToFile_cons_iff h]
  constructor
  · rintro ⟨⟨rfl, -⟩ | hleads, -, rfl⟩
    · exact ⟨rfl, rfl⟩
    · exact absurd hleads hrest
  · rintro ⟨rfl, rfl⟩
    exact ⟨.inl ⟨rfl, hfile⟩, by simp, rfl⟩

theorem reaches_cons_of_not_namesFile (h : t.Holds path dir name)
    (hfile : ¬t.NamesFile path dir name) :
    t.Reaches skips path (name :: rest) q ↔
      skips name = false ∧ t.Reaches skips (path.join ⟨name⟩) rest q := by
  unfold Reaches
  rw [leadsToFile_cons_iff h]
  constructor
  · rintro ⟨⟨-, hfile'⟩ | hleads, hskips, rfl⟩
    · exact absurd hfile' hfile
    · rw [List.dropLast_cons_of_ne_nil hleads.ne_nil, List.forall_mem_cons] at hskips
      exact ⟨hskips.1, hleads, hskips.2, rfl⟩
  · rintro ⟨hname, hleads, hskips, rfl⟩
    refine ⟨.inr hleads, ?_, rfl⟩
    rw [List.dropLast_cons_of_ne_nil hleads.ne_nil, List.forall_mem_cons]
    exact ⟨hname, hskips⟩

/-! ## The depth of a walk -/

def locations (t : FileTree) : Finset Location :=
  ([] :: t.entries.map Prod.fst).toFinset

theorem mem_locations {e : Entry} (h : t.entry? loc = some e) : loc ∈ t.locations := by
  cases loc with
  | nil => simp [locations]
  | cons name dir =>
      have hname := mem_names_iff.mp (mem_names_iff_entry.mpr ⟨e, h⟩)
      exact List.mem_toFinset.mpr (List.mem_cons_of_mem _ hname)

theorem card_locations_le (t : FileTree) : t.locations.card ≤ t.entries.length + 1 := by
  have hle := List.toFinset_card_le ([] :: t.entries.map Prod.fst)
  rwa [List.length_cons, List.length_map] at hle

def unentered (t : FileTree) (walk : Walk) : Finset Location :=
  t.locations \ (walk.map Prod.fst).toFinset

/-- The places below a directory. -/
def beneath (t : FileTree) (dir : Location) : Finset Location :=
  t.locations.filter fun loc => dir <:+ loc ∧ loc ≠ dir

/-- How many directories deep a walk can still go from a directory, at most. -/
def depthLeft (t : FileTree) (walk : Walk) (dir : Location) : Nat :=
  (t.unentered walk).card * (t.locations.card + 1) + (t.beneath dir).card

theorem depthLeft_lt (t : FileTree) (walk : Walk) (dir : Location) :
    t.depthLeft walk dir < ((t.unentered walk).card + 1) * (t.locations.card + 1) := by
  have hbeneath : (t.beneath dir).card ≤ t.locations.card :=
    Finset.card_le_card (Finset.filter_subset _ _)
  rw [depthLeft, Nat.add_mul, Nat.one_mul]
  omega

theorem unentered_cons_subset (t : FileTree) (walk : Walk) (entered : Location × Path) :
    t.unentered (entered :: walk) ⊆ t.unentered walk := by
  refine Finset.sdiff_subset_sdiff (Finset.Subset.refl _) ?_
  rw [List.map_cons, List.toFinset_cons]
  exact Finset.subset_insert _ _

theorem depthLeft_entry {e : Entry} (h : t.entry? (name :: dir) = some e) (walk : Walk)
    (path : Path) :
    t.depthLeft ((name :: dir, path) :: walk) (name :: dir) < t.depthLeft walk dir := by
  have hwalk := Finset.card_le_card (t.unentered_cons_subset walk (name :: dir, path))
  have hbeneath : t.beneath (name :: dir) ⊂ t.beneath dir := by
    refine Finset.ssubset_iff_subset_ne.mpr ⟨fun loc hloc => ?_, fun heq => ?_⟩
    · obtain ⟨hmem, hbelow, -⟩ := Finset.mem_filter.mp hloc
      refine Finset.mem_filter.mpr ⟨hmem, (List.suffix_cons name dir).trans hbelow, ?_⟩
      rintro rfl
      exact absurd hbelow.length_le (by simp)
    · have hself : name :: dir ∈ t.beneath dir :=
        Finset.mem_filter.mpr ⟨mem_locations h, List.suffix_cons name dir, by simp⟩
      rw [← heq] at hself
      exact (Finset.mem_filter.mp hself).2.2 rfl
  have hlt := Finset.card_lt_card hbeneath
  exact Nat.add_lt_add_of_le_of_lt (Nat.mul_le_mul_right _ hwalk) hlt

theorem depthLeft_link {e : Entry} (h : t.entry? loc = some e) {walk : Walk}
    (hwalk : loc ∉ walk.map Prod.fst) (path : Path) (dir : Location) :
    t.depthLeft ((loc, path) :: walk) loc < t.depthLeft walk dir := by
  have hlt : (t.unentered ((loc, path) :: walk)).card < (t.unentered walk).card := by
    refine Finset.card_lt_card (Finset.ssubset_iff_subset_ne.mpr
      ⟨t.unentered_cons_subset walk (loc, path), fun heq => ?_⟩)
    have hself : loc ∈ t.unentered walk :=
      Finset.mem_sdiff.mpr ⟨mem_locations h, fun hmem => hwalk (List.mem_toFinset.mp hmem)⟩
    rw [← heq] at hself
    exact (Finset.mem_sdiff.mp hself).2 (by simp)
  calc t.depthLeft ((loc, path) :: walk) loc
      < ((t.unentered ((loc, path) :: walk)).card + 1) * (t.locations.card + 1) :=
        t.depthLeft_lt _ _
    _ ≤ (t.unentered walk).card * (t.locations.card + 1) := Nat.mul_le_mul_right _ hlt
    _ ≤ t.depthLeft walk dir := Nat.le_add_right _ _

/-- A step into a directory that the walk is not in, or that has its place below, leaves less. -/
theorem depthLeft_into {e : Entry} (hname : t.entry? (name :: dir) = some e)
    (hdir : t.entry? loc = some .directory) (h : loc = name :: dir ∨ loc ∉ walk.map Prod.fst)
    (path : Path) : t.depthLeft ((loc, path) :: walk) loc < t.depthLeft walk dir := by
  rcases h with rfl | hfree
  · exact depthLeft_entry hname walk path
  · exact depthLeft_link hdir hfree path dir

theorem depthLeft_lt_walkRoom (t : FileTree) (walk : Walk) (dir : Location) :
    t.depthLeft walk dir < t.walkRoom := by
  have hcard := t.card_locations_le
  have hwalk : (t.unentered walk).card ≤ t.locations.card :=
    Finset.card_le_card Finset.sdiff_subset
  calc t.depthLeft walk dir
      < ((t.unentered walk).card + 1) * (t.locations.card + 1) := t.depthLeft_lt walk dir
    _ ≤ t.walkRoom := Nat.mul_le_mul (by omega) (by omega)

/-! ## One name -/

theorem lookup_eq_none_iff_not_mem : walk.lookup loc = none ↔ loc ∉ walk.map Prod.fst := by
  rw [List.lookup_eq_none_iff, List.mem_map]
  grind

section

variable {descend : Path → Except WalkError (List Path)} {part : List Path}

/-- What can come of a name: a file is found, a directory is skipped, or the walk goes on below
it. -/
theorem visit_cases (ht : t.Wellformed) (h : t.Holds path dir name)
    (hvisit : t.visit skips descend walk dir (path.join ⟨name⟩) name = .ok part) :
    t.NamesFile path dir name ∧ part = [path.join ⟨name⟩] ∨
      ¬t.NamesFile path dir name ∧
        (skips name = true ∧ part = [] ∨
          skips name = false ∧ descend (path.join ⟨name⟩) = .ok part ∧
            ∀ loc, t.locate (path.join ⟨name⟩) = .ok loc → t.entry? loc = some .directory ∧
              (loc = name :: dir ∨ loc ∉ walk.map Prod.fst)) := by
  obtain ⟨hpath, hdir, hname⟩ := id h
  obtain ⟨e, hentry⟩ := mem_names_iff_entry.mp hname
  have hskip {part : List Path} (hpart :
      (if skips name then .ok [] else descend (path.join ⟨name⟩)) = .ok part) :
      skips name = true ∧ part = [] ∨
        skips name = false ∧ descend (path.join ⟨name⟩) = .ok part := by
    cases hskips : skips name with
    | true =>
        rw [hskips] at hpart
        cases hpart
        exact .inl ⟨rfl, rfl⟩
    | false =>
        rw [hskips] at hpart
        exact .inr ⟨rfl, hpart⟩
  unfold visit at hvisit
  rw [hentry] at hvisit
  cases e with
  | file bytes =>
      cases hvisit
      exact .inl ⟨.inl ⟨bytes, hentry⟩, rfl⟩
  | directory =>
      have hnot : ¬t.NamesFile path dir name := by simp [NamesFile, hentry]
      refine .inr ⟨hnot, (hskip hvisit).imp_right fun hpart => ⟨hpart.1, hpart.2, ?_⟩⟩
      intro loc hloc
      obtain rfl := locate_join hpath hdir (ht.isEntryName hname) (by simp [hentry]) hloc
      exact ⟨hentry, .inl rfl⟩
  | link target =>
      dsimp only at hvisit
      split at hvisit
      · cases hvisit
      · rename_i loc hloc
        split at hvisit
        · rename_i hne
          cases hvisit
          have hfile := (ends_of_locate ht.stands hloc).resolve_left (by simpa using hne)
          exact .inl ⟨.inr ⟨⟨target, hentry⟩, isFile_iff_entry.mpr ⟨loc, hloc, hfile.1⟩⟩, rfl⟩
        · rename_i hne
          have hdirectory : t.entry? loc = some .directory := by simpa using hne
          have hnot : ¬t.NamesFile path dir name := fun hfile =>
            hfile.entry_ne ht h hloc hdirectory
          split at hvisit
          · cases hvisit
          · rename_i hfree
            refine .inr ⟨hnot, (hskip hvisit).imp_right fun hpart => ⟨hpart.1, hpart.2, ?_⟩⟩
            intro loc' hloc'
            obtain rfl := Except.ok.inj (hloc.symm.trans hloc')
            exact ⟨hdirectory, .inr (lookup_eq_none_iff_not_mem.mp hfree)⟩

end

/-! ## A whole walk -/

theorem exists_locate_of_walkFrom {room : Nat} {found : List Path}
    (h : t.walkFrom skips (room + 1) walk path = .ok found) : ∃ dir, t.locate path = .ok dir := by
  cases hlocate : t.locate path with
  | error e =>
      rw [walkFrom, hlocate] at h
      cases h
  | ok dir => exact ⟨dir, rfl⟩

theorem exists_parts_of_walkFrom {room : Nat} {found : List Path} (hpath : t.locate path = .ok dir)
    (h : t.walkFrom skips (room + 1) walk path = .ok found) :
    ∃ part, found = (t.names dir).flatMap part ∧
      ∀ name ∈ t.names dir,
        t.visit skips (t.walkFrom skips room ((dir, path) :: walk)) ((dir, path) :: walk) dir
          (path.join ⟨name⟩) name = .ok (part name) := by
  rw [walkFrom, hpath] at h
  obtain ⟨parts, hparts, h⟩ := exists_of_bind_eq_ok h
  cases h
  obtain ⟨part, hpart, rfl⟩ := exists_of_mapM_eq_ok hparts
  exact ⟨part, List.flatMap_def.symm, hpart⟩

/-- The walk of a directory finds each file below it once.  The induction is on the depth that is
allowed, of which a step leaves enough. -/
theorem walkFrom_finds (ht : t.Wellformed) {room : Nat} {found : List Path} (hroom : 0 < room)
    (hpath : ∀ dir, t.locate path = .ok dir →
      t.entry? dir = some .directory ∧ t.depthLeft ((dir, path) :: walk) dir < room)
    (h : t.walkFrom skips room walk path = .ok found) :
    found.Nodup ∧ ∀ q, q ∈ found ↔ ∃ names, t.Reaches skips path names q := by
  induction room generalizing walk path found with
  | zero => exact absurd hroom (Nat.lt_irrefl 0)
  | succ room ih =>
      obtain ⟨dir, hdir⟩ := exists_locate_of_walkFrom h
      obtain ⟨hentry, hdepth⟩ := hpath dir hdir
      obtain ⟨part, rfl, hparts⟩ := exists_parts_of_walkFrom hdir h
      have hpart (name : String) (hname : name ∈ t.names dir) :
          (part name).Nodup ∧
            ∀ q, q ∈ part name ↔ ∃ rest, t.Reaches skips path (name :: rest) q := by
        have hholds : t.Holds path dir name := ⟨hdir, hentry, hname⟩
        obtain ⟨hfile, hpart⟩ | ⟨hfile, ⟨hskips, hpart⟩ | ⟨hskips, hdescend, hloc⟩⟩ :=
          visit_cases ht hholds (hparts name hname)
        · rw [hpart]
          simp [reaches_cons_of_namesFile ht hholds hfile]
        · rw [hpart]
          simp [reaches_cons_of_not_namesFile hholds hfile, hskips]
        · obtain ⟨e, hname⟩ := mem_names_iff_entry.mp hname
          have hlt := depthLeft_entry hname ((dir, path) :: walk) (path.join ⟨name⟩)
          have hbelow := ih (by omega) (fun loc hjoin => ?_) hdescend
          · simpa [reaches_cons_of_not_namesFile hholds hfile, hskips] using hbelow
          · obtain ⟨hdirectory, hfree⟩ := hloc loc hjoin
            have hlt := depthLeft_into hname hdirectory hfree (path.join ⟨name⟩)
            exact ⟨hdirectory, by omega⟩
      refine ⟨List.nodup_flatMap.mpr ⟨fun name hname => (hpart name hname).1, ?_⟩, fun q => ?_⟩
      · -- different names lead to different paths
        refine (ht.nodup_names dir).pairwise_of_forall_ne ?_
        intro name hname name' hname' hne q hq hq'
        obtain ⟨rest, hleads, -, rfl⟩ := ((hpart name hname).2 q).mp hq
        obtain ⟨rest', hleads', -, heq⟩ := ((hpart name' hname').2 _).mp hq'
        have hnames := Path.eq_of_descend_eq (hleads.isEntryName ht) (hleads'.isEntryName ht)
          (text_ne_nil_of_locate hdir) heq
        exact hne (List.cons.inj hnames).1
      · rw [List.mem_flatMap]
        constructor
        · rintro ⟨name, hname, hq⟩
          obtain ⟨rest, hreaches⟩ := ((hpart name hname).2 q).mp hq
          exact ⟨name :: rest, hreaches⟩
        · rintro ⟨names, hreaches⟩
          obtain ⟨name, rest, hname, rfl⟩ := hreaches.1.exists_cons hdir
          exact ⟨name, hname, ((hpart name hname).2 q).mpr ⟨rest, hreaches⟩⟩

theorem filesBelow_finds (ht : t.Wellformed) {root : Path} {found : List Path}
    (h : t.filesBelow skips root = .ok found) :
    found.Nodup ∧
      ∀ q, q ∈ found ↔
        t.isFile root = true ∧ q = root ∨ ∃ names, t.Reaches skips root names q := by
  unfold filesBelow at h
  split at h
  · cases h
  · rename_i loc hloc
    split at h
    · rename_i hentry
      rw [beq_iff_eq] at hentry
      have hfile : ¬t.isFile root = true := by
        rw [isFile_iff_entry]
        rintro ⟨loc', hloc', bytes, hfile⟩
        obtain rfl := Except.ok.inj (hloc.symm.trans hloc')
        exact absurd (hfile.symm.trans hentry) (by simp)
      simp only [hfile, Bool.false_eq_true, false_and, false_or]
      have hroom := t.depthLeft_lt_walkRoom [(loc, root)] loc
      refine walkFrom_finds ht (by omega) (fun dir hdir => ?_) h
      obtain rfl := Except.ok.inj (hloc.symm.trans hdir)
      exact ⟨hentry, hroom⟩
    · rename_i hentry
      cases h
      rw [beq_iff_eq] at hentry
      have hfile := ((ends_of_locate ht.stands hloc).resolve_left hentry).1
      have hleads (names : List String) (q : Path) : ¬t.Reaches skips root names q := by
        rintro ⟨hleads, -⟩
        obtain ⟨dir, hdir, hdirectory⟩ := hleads.exists_directory
        obtain rfl := Except.ok.inj (hloc.symm.trans hdir)
        exact hentry hdirectory
      refine ⟨List.nodup_singleton root, fun q => ?_⟩
      simp [isFile_iff_entry.mpr ⟨loc, hloc, hfile⟩, hleads]

/-! ## When a walk succeeds -/

/-- The directories that a walk is in at some time: that of its root, and then one after the other
those that names lead to which are not skipped. -/
inductive Enters (t : FileTree) (skips : String → Bool) (root : Path) : Walk → Prop
  | root {dir : Location} (h : t.locate root = .ok dir) (hdir : t.entry? dir = some .directory) :
      Enters t skips root [(dir, root)]
  | into {dir loc : Location} {path : Path} {walk : Walk} {name : String}
      (h : Enters t skips root ((dir, path) :: walk)) (hname : name ∈ t.names dir)
      (hskips : skips name = false) (hloc : t.locate (path.join ⟨name⟩) = .ok loc)
      (hdir : t.entry? loc = some .directory) :
      Enters t skips root ((loc, path.join ⟨name⟩) :: (dir, path) :: walk)

/-- A name at which a walk fails. -/
inductive FailsAt (t : FileTree) (skips : String → Bool) (walk : Walk) (dir : Location)
    (path : Path) (name : String) : Prop
  /-- A directory that cannot be opened by its path. -/
  | closed (hentry : t.entry? (name :: dir) = some .directory) (hskips : skips name = false)
      (h : ∀ loc, t.locate (path.join ⟨name⟩) ≠ .ok loc)
  /-- A link that leads nowhere. -/
  | broken {target : Path} (hentry : t.entry? (name :: dir) = some (.link target))
      (h : ∀ loc, t.locate (path.join ⟨name⟩) ≠ .ok loc)
  /-- A link to a directory that the walk is in. -/
  | loop {target : Path} {loc : Location} (hentry : t.entry? (name :: dir) = some (.link target))
      (hloc : t.locate (path.join ⟨name⟩) = .ok loc) (hdir : t.entry? loc = some .directory)
      (hwalk : loc ∈ walk.map Prod.fst)

/-- A root that is there, with no name below it at which a walk fails. -/
structure Walkable (t : FileTree) (skips : String → Bool) (root : Path) : Prop where
  located : ∃ loc, t.locate root = .ok loc
  clear : ∀ {dir path walk name}, t.Enters skips root ((dir, path) :: walk) → name ∈ t.names dir →
    ¬t.FailsAt skips ((dir, path) :: walk) dir path name

theorem walkFrom_of_enters (ht : t.Wellformed) {root : Path} {found : List Path}
    (h : t.filesBelow skips root = .ok found) {entered : Walk}
    (henters : t.Enters skips root entered) :
    ∃ dir path walk, entered = (dir, path) :: walk ∧ t.locate path = .ok dir ∧
      t.entry? dir = some .directory ∧
      ∃ room found, t.depthLeft entered dir < room + 1 ∧
        t.walkFrom skips (room + 1) walk path = .ok found := by
  induction henters with
  | @root dir hroot hdir =>
      refine ⟨dir, root, [], rfl, hroot, hdir, ?_⟩
      have hroom := t.depthLeft_lt_walkRoom [(dir, root)] dir
      obtain ⟨room, hroom'⟩ := Nat.exists_eq_add_one_of_ne_zero (Nat.ne_zero_of_lt hroom)
      rw [filesBelow, hroot] at h
      dsimp only at h
      rw [if_pos (by rw [hdir]; rfl), hroom'] at h
      exact ⟨room, found, hroom' ▸ hroom, h⟩
  | @into dir loc path walk name _ hname hskips hloc hdir ih =>
      obtain ⟨_, _, _, ⟨⟩, hpath, hentry, room, found, hdepth, hwalk⟩ := ih
      refine ⟨loc, path.join ⟨name⟩, (dir, path) :: walk, rfl, hloc, hdir, ?_⟩
      obtain ⟨part, -, hparts⟩ := exists_parts_of_walkFrom hpath hwalk
      have hholds : t.Holds path dir name := ⟨hpath, hentry, hname⟩
      obtain ⟨e, hname'⟩ := mem_names_iff_entry.mp hname
      obtain ⟨hfile, -⟩ | ⟨-, ⟨hskips', -⟩ | ⟨-, hdescend, hfree⟩⟩ :=
        visit_cases ht hholds (hparts name hname)
      · exact absurd hdir (hfile.entry_ne ht hholds hloc)
      · exact absurd (hskips.symm.trans hskips') Bool.false_ne_true
      · have hlt := depthLeft_into hname' hdir (hfree loc hloc).2 (path.join ⟨name⟩)
        obtain ⟨room, rfl⟩ := Nat.exists_eq_add_one_of_ne_zero (n := room) (by omega)
        exact ⟨room, _, by omega, hdescend⟩

theorem Walkable.of_filesBelow (ht : t.Wellformed) {root : Path} {found : List Path}
    (h : t.filesBelow skips root = .ok found) : t.Walkable skips root where
  located := by
    cases hlocate : t.locate root with
    | error e =>
        rw [filesBelow, hlocate] at h
        cases h
    | ok loc => exact ⟨loc, rfl⟩
  clear := by
    intro dir path walk name henters hname hfails
    obtain ⟨_, _, _, ⟨⟩, hpath, hentry, room, found, hdepth, hwalk⟩ :=
      walkFrom_of_enters ht h henters
    obtain ⟨part, -, hparts⟩ := exists_parts_of_walkFrom hpath hwalk
    have hvisit := hparts name hname
    unfold visit at hvisit
    cases hfails with
    | closed hentry' hskips hclosed =>
        rw [hentry', hskips] at hvisit
        have hlt := depthLeft_entry hentry' ((dir, path) :: walk) (path.join ⟨name⟩)
        obtain ⟨room, rfl⟩ := Nat.exists_eq_add_one_of_ne_zero (n := room) (by omega)
        obtain ⟨loc, hloc⟩ := exists_locate_of_walkFrom hvisit
        exact hclosed loc hloc
    | broken hentry' hbroken =>
        rw [hentry'] at hvisit
        cases hlocate : t.locate (path.join ⟨name⟩) with
        | error e =>
            rw [hlocate] at hvisit
            cases hvisit
        | ok loc => exact hbroken loc hlocate
    | @loop target loc hentry' hloc hdir hmem =>
        rw [hentry', hloc] at hvisit
        dsimp only at hvisit
        rw [if_neg (by simp [hdir])] at hvisit
        split at hvisit
        · cases hvisit
        · rename_i hfree
          exact lookup_eq_none_iff_not_mem.mp hfree hmem

theorem Walkable.exists_walkFrom (ht : t.Wellformed) {root : Path} (h : t.Walkable skips root)
    (henters : t.Enters skips root ((dir, path) :: walk)) (hpath : t.locate path = .ok dir)
    (hdir : t.entry? dir = some .directory) (room : Nat) :
    ∃ found, t.walkFrom skips room walk path = .ok found := by
  induction room generalizing dir path walk with
  | zero => exact ⟨[], rfl⟩
  | succ room ih =>
      have hinto {name : String} {loc : Location} (hname : name ∈ t.names dir)
          (hloc : t.locate (path.join ⟨name⟩) = .ok loc) (hentry : t.entry? loc = some .directory) :
          ∃ part, (if skips name then .ok []
            else t.walkFrom skips room ((dir, path) :: walk) (path.join ⟨name⟩)) = .ok part := by
        cases hskips : skips name with
        | true => exact ⟨[], rfl⟩
        | false => exact ih (.into henters hname hskips hloc hentry) hloc hentry
      have hvisit (name : String) (hname : name ∈ t.names dir) :
          ∃ part, t.visit skips (t.walkFrom skips room ((dir, path) :: walk)) ((dir, path) :: walk)
            dir (path.join ⟨name⟩) name = .ok part := by
        have hclear := h.clear henters hname
        obtain ⟨e, hentry⟩ := mem_names_iff_entry.mp hname
        unfold visit
        rw [hentry]
        cases e with
        | file bytes => exact ⟨_, rfl⟩
        | directory =>
            cases hskips : skips name with
            | true => exact ⟨[], rfl⟩
            | false =>
                cases hloc : t.locate (path.join ⟨name⟩) with
                | error e => exact absurd (.closed hentry hskips (by simp [hloc])) hclear
                | ok loc =>
                    obtain rfl := locate_join hpath hdir (ht.isEntryName hname)
                      (by simp [hentry]) hloc
                    simpa [hskips] using hinto hname hloc hentry
        | link target =>
            cases hloc : t.locate (path.join ⟨name⟩) with
            | error e => exact absurd (.broken hentry (by simp [hloc])) hclear
            | ok loc =>
                dsimp only
                by_cases hdirectory : t.entry? loc = some .directory
                · rw [if_neg (by simp [hdirectory])]
                  cases hfree : List.lookup loc ((dir, path) :: walk) with
                  | none => exact hinto hname hloc hdirectory
                  | some ancestor =>
                      refine absurd (.loop hentry hloc hdirectory ?_) hclear
                      by_contra hmem
                      rw [lookup_eq_none_iff_not_mem.mpr hmem] at hfree
                      cases hfree
                · rw [if_pos (by simp [hdirectory])]
                  exact ⟨_, rfl⟩
      choose! part hpart using hvisit
      refine ⟨(t.names dir).flatMap part, ?_⟩
      rw [walkFrom, hpath]
      dsimp only
      rw [mapM_of_forall_eq_ok hpart]
      rfl

/-- A walk succeeds where nothing below its root makes it fail. -/
theorem exists_filesBelow_iff (ht : t.Wellformed) {root : Path} :
    (∃ found, t.filesBelow skips root = .ok found) ↔ t.Walkable skips root := by
  constructor
  · rintro ⟨found, h⟩
    exact .of_filesBelow ht h
  · intro h
    obtain ⟨loc, hloc⟩ := h.located
    unfold filesBelow
    rw [hloc]
    dsimp only
    split
    · rename_i hdir
      rw [beq_iff_eq] at hdir
      exact h.exists_walkFrom ht (.root hloc hdir) hloc hdir t.walkRoom
    · exact ⟨_, rfl⟩

end FileTree

end Preprocessor
