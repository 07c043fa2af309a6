/-
Which files are collected, and in which order.

Paths are ordered by their components, and this order is that of lists of keys, so it is linear and
equal paths are those with the same components.  A collection lists for every root the files that
names lead to from it, but for those in directories that are left out and those whose extension is
not asked for; it is sorted, and so the order of the roots does not count.
-/
import Mathlib.Data.Char
import Mathlib.Data.List.Lex
import Mathlib.Data.Prod.Lex
import Preprocessor.Proofs.TextCutting
import Preprocessor.Proofs.TreeWalks
import Preprocessor.Source.Selection

namespace Preprocessor

/-! ## Asking for extensions -/

namespace Text

/-- What is left of a text without a star and a dot, or a dot, in front of it. -/
def Unmarked (cs core : List Char) : Prop :=
  cs = ['*', '.'] ++ core ∨ cs = ['.'] ++ core ∨
    cs = core ∧ ¬['*', '.'] <+: core ∧ ¬['.'] <+: core

/-- A text asks for an extension: with a star and a dot, a dot or nothing in front of it, with
blanks around it, and in any case. -/
def AsksFor (v ext : String) : Prop :=
  ∃ core, Unmarked (trim v.toList) core ∧ core ≠ [] ∧ ext = lower (String.ofList core)

theorem unmarked_iff {cs core : List Char} :
    Unmarked cs core ↔ (replaceFirst ["*.", "."] "" (String.ofList cs)).toList = core := by
  have hhead {head : List Char} (hnone : after? head cs = none) : ¬head <+: cs := by
    rintro ⟨rest, rfl⟩
    rw [after?_append] at hnone
    cases hnone
  cases hstar : after? ['*', '.'] cs with
  | some rest =>
      obtain rfl := eq_of_after? hstar
      have hvalue :
          (replaceFirst ["*.", "."] "" (String.ofList (['*', '.'] ++ rest))).toList = rest := by
        simp [replaceFirst, after?, show "*.".length = 2 from rfl]
      rw [hvalue]
      constructor
      · rintro (h | h | ⟨rfl, h, -⟩)
        · exact List.append_cancel_left h
        · cases h
        · exact absurd (List.prefix_append _ _) h
      · rintro rfl
        exact .inl rfl
  | none =>
      cases hdot : after? ['.'] cs with
      | some rest =>
          obtain rfl := eq_of_after? hdot
          have hvalue :
              (replaceFirst ["*.", "."] "" (String.ofList (['.'] ++ rest))).toList = rest := by
            simp [replaceFirst, after?, show ".".length = 1 from rfl]
          rw [hvalue]
          constructor
          · rintro (h | h | ⟨rfl, -, h⟩)
            · cases h
            · exact List.append_cancel_left h
            · exact absurd (List.prefix_append _ _) h
          · rintro rfl
            exact .inr (.inl rfl)
      | none =>
          have hvalue : (replaceFirst ["*.", "."] "" (String.ofList cs)).toList = cs := by
            simp [replaceFirst, hstar, hdot]
          rw [hvalue]
          constructor
          · rintro (rfl | rfl | ⟨rfl, -⟩)
            · exact absurd (List.prefix_append _ _) (hhead hstar)
            · exact absurd (List.prefix_append _ _) (hhead hdot)
            · rfl
          · rintro rfl
            exact .inr (.inr ⟨rfl, hhead hstar, hhead hdot⟩)

/-- The star and the dot are tried before the dot alone. -/
theorem normalizeExtensions_eq (values : List String) :
    normalizeExtensions values =
      (((values.map trimmed).map (replaceFirst ["*.", "."] "")).filter (!·.isEmpty)).map lower := by
  have hordered : longestFirst ["*.", "."] = ["*.", "."] :=
    longestFirst_of_pairwise (by decide +kernel)
  rw [normalizeExtensions, replaceHeads, hordered]

theorem mem_normalizeExtensions_iff {values : List String} {ext : String} :
    ext ∈ normalizeExtensions values ↔ ∃ v ∈ values, AsksFor v ext := by
  simp only [normalizeExtensions_eq, List.map_map, Function.comp_apply, trimmed, AsksFor,
    unmarked_iff, List.mem_map, List.mem_filter]
  constructor
  · rintro ⟨_, ⟨⟨v, hv, rfl⟩, hne⟩, rfl⟩
    refine ⟨v, hv, _, rfl, ?_, by rw [String.ofList_toList]⟩
    simpa [String.isEmpty_iff, String.toList_eq_nil_iff] using hne
  · rintro ⟨v, hv, _, rfl, hne, rfl⟩
    refine ⟨_, ⟨⟨v, hv, rfl⟩, ?_⟩, by rw [String.ofList_toList]⟩
    simpa [String.isEmpty_iff, String.toList_eq_nil_iff] using hne

end Text

/-! ## The order of paths -/

namespace Path

/-- The text of a component that is a name. -/
def Component.label : Component → List Char
  | name s => s.toList
  | _ => []

/-- By what components are ordered: their kind, then their text. -/
def Component.key (c : Component) : ℕ ×ₗ List Char :=
  toLex (c.rank, c.label)

theorem Component.key_injective : Function.Injective Component.key := by
  intro a b h
  have hkey := toLex_inj.mp h
  cases a <;> cases b <;> simp_all [rank, label, String.toList_inj]

theorem Component.before_iff {a b : Component} : a.before b = true ↔ a.key < b.key := by
  have hname (s t : String) : (name s).before (name t) = true ↔ s.toList < t.toList :=
    decide_eq_true_iff.trans String.lt_iff
  rw [key, key, Prod.Lex.toLex_lt_toLex]
  cases a <;> cases b
  case name.name s t =>
    rw [hname]
    simp [rank, label]
  all_goals simp [before, rank, label]

/-- By what paths are ordered: the keys of their components. -/
def order (p : Path) : List (ℕ ×ₗ List Char) :=
  p.components.map Component.key

theorem componentsBefore_iff {as bs : List Component} :
    componentsBefore as bs = true ↔ as.map Component.key < bs.map Component.key := by
  induction as generalizing bs with
  | nil => cases bs <;> simp [componentsBefore]
  | cons a as ih =>
      cases bs with
      | nil => simp [componentsBefore]
      | cons b bs =>
          rw [componentsBefore, List.map_cons, List.map_cons, List.cons_lt_cons_iff, ← ih,
            ← Component.before_iff, Component.key_injective.eq_iff]
          simp

theorem same_iff {p q : Path} : p.same q = true ↔ p.order = q.order := by
  rw [same, beq_iff_eq, order, order, (List.map_injective_iff.mpr Component.key_injective).eq_iff]

end Path

/-! ## The files of a root -/

/-- An extension that one of some texts asks for. -/
def Listed (values : List String) (ext : String) : Prop :=
  ∃ v ∈ values, Text.AsksFor v ext

/-- A file whose extension is not among the unwanted ones, and among the wanted ones if there are
any. -/
def Wanted (wanted unwanted : List String) (p : Path) : Prop :=
  ¬Listed unwanted (Text.lower (p.extension.getD "")) ∧
    ((∀ ext, ¬Listed wanted ext) ∨ Listed wanted (Text.lower (p.extension.getD "")))

theorem SourceFilter.accepts_ofExtensions_iff {wanted unwanted dirs : List String} {p : Path} :
    (ofExtensions wanted unwanted dirs).accepts p = true ↔ Wanted wanted unwanted p := by
  have hempty : (∀ ext, ¬Listed wanted ext) ↔ Text.normalizeExtensions wanted = [] := by
    rw [List.eq_nil_iff_forall_not_mem]
    exact forall_congr' fun ext => not_congr Text.mem_normalizeExtensions_iff.symm
  rw [Wanted, hempty]
  unfold Listed accepts ofExtensions
  rw [← Text.mem_normalizeExtensions_iff, ← Text.mem_normalizeExtensions_iff]
  simp

namespace SourceFile

variable {t : FileTree} {wanted unwanted dirs names : List String} {root : Path}

/-- A file that comes from a root: the root itself, placed by its name, or a file below it, placed
by the names that lead to it, none of them but the last that of a directory to leave out. -/
inductive ComesFrom (t : FileTree) (wanted unwanted dirs : List String) (root : Path) :
    SourceFile → Prop
  | root {name : String} (h : t.isFile root = true) (hname : root.fileName = some name)
      (hwanted : Wanted wanted unwanted root) : ComesFrom t wanted unwanted dirs root ⟨root, ⟨name⟩⟩
  | below {names : List String} (h : t.LeadsToFile root names)
      (hdirs : ∀ name ∈ names.dropLast, name ∉ dirs)
      (hwanted : Wanted wanted unwanted (root.descend names)) :
      ComesFrom t wanted unwanted dirs root ⟨root.descend names, ⟨"/".intercalate names⟩⟩

theorem path_below (root path : Path) : (below root path).path = path := by
  unfold below
  split
  · split <;> rfl
  · rfl

theorem below_self {name : String} (h : root.fileName = some name) :
    below root root = ⟨root, ⟨name⟩⟩ := by
  unfold below
  rw [Path.relativeTo_self, h]
  rfl

theorem below_descend (h : ∀ name ∈ names, Path.IsEntryName name) (hne : names ≠ [])
    (hroot : root.text.toList ≠ []) :
    below root (root.descend names) = ⟨root.descend names, ⟨"/".intercalate names⟩⟩ := by
  have htext : ("/".intercalate names).isEmpty = false := by
    rw [Bool.eq_false_iff, ne_eq, String.isEmpty_iff, ← String.toList_eq_nil_iff,
      String.toList_intercalate]
    cases names with
    | nil => exact absurd rfl hne
    | cons name rest =>
        have hname := (h name List.mem_cons_self).1
        cases rest <;> simp [List.intercalate, hname]
  unfold below
  rw [Path.relativeTo_descend h hne hroot]
  dsimp only
  rw [if_neg (by simp [htext])]

theorem fileName_of_isFile (ht : t.Wellformed) (h : t.isFile root = true) :
    ∃ name, root.fileName = some name := by
  obtain ⟨loc, hloc, bytes, hfile⟩ := FileTree.isFile_iff_entry.mp h
  have hends := (FileTree.ends_of_locate ht.stands hloc).resolve_left (by simp [hfile])
  obtain ⟨-, init, name, hsteps⟩ := hends
  exact ⟨name, Path.fileName_of_steps hsteps⟩

/-- What is found at one root is what comes from it, each path once. -/
theorem belowRoot_lists (ht : t.Wellformed) {part : List SourceFile}
    (h : belowRoot t (.ofExtensions wanted unwanted dirs) root = .ok part) :
    (part.map path).Nodup ∧ ∀ f, f ∈ part ↔ ComesFrom t wanted unwanted dirs root f := by
  unfold belowRoot at h
  split at h
  · cases h
  · rename_i paths hpaths
    cases h
    obtain ⟨hnodup, hmem⟩ := FileTree.filesBelow_finds ht hpaths
    constructor
    · have hpath : path ∘ below root = id := funext fun p => path_below root p
      rw [List.map_map, hpath, List.map_id]
      exact hnodup.filter _
    · intro f
      simp only [List.mem_map, List.mem_filter, hmem, SourceFilter.accepts_ofExtensions_iff]
      constructor
      · rintro ⟨p, ⟨⟨hfile, rfl⟩ | ⟨names, hleads, hskips, rfl⟩, hwanted⟩, rfl⟩
        · obtain ⟨name, hname⟩ := fileName_of_isFile ht hfile
          rw [below_self hname]
          exact .root hfile hname hwanted
        · obtain ⟨dir, hdir, -⟩ := hleads.exists_directory
          rw [below_descend (hleads.isEntryName ht) hleads.ne_nil
            (FileTree.text_ne_nil_of_locate hdir)]
          refine .below hleads (fun name hname => ?_) hwanted
          simpa [SourceFilter.ofExtensions] using hskips name hname
      · intro hcomes
        cases hcomes with
        | root hfile hname hwanted =>
            exact ⟨root, ⟨.inl ⟨hfile, rfl⟩, hwanted⟩, below_self hname⟩
        | @below names hleads hdirs hwanted =>
            obtain ⟨dir, hdir, -⟩ := hleads.exists_directory
            refine ⟨_, ⟨.inr ⟨names, hleads, fun name hname => ?_, rfl⟩, hwanted⟩,
              below_descend (hleads.isEntryName ht) hleads.ne_nil
                (FileTree.text_ne_nil_of_locate hdir)⟩
            simpa [SourceFilter.ofExtensions] using hdirs name hname

theorem exists_belowRoot_iff (ht : t.Wellformed) :
    (∃ part, belowRoot t (.ofExtensions wanted unwanted dirs) root = .ok part) ↔
      t.Walkable dirs.contains root := by
  rw [← FileTree.exists_filesBelow_iff ht]
  unfold belowRoot
  cases hpaths : t.filesBelow (SourceFilter.ofExtensions wanted unwanted dirs).excludeDirs.contains
      root with
  | error e =>
      refine iff_of_false (by simp) ?_
      rintro ⟨paths, h⟩
      cases hpaths.symm.trans h
  | ok paths => exact iff_of_true ⟨_, rfl⟩ ⟨paths, hpaths⟩

/-! ## All roots -/

/-- By what files are ordered: their place, then their path. -/
def order (f : SourceFile) : List (ℕ ×ₗ List Char) ×ₗ List (ℕ ×ₗ List Char) :=
  toLex (f.relative.order, f.path.order)

theorem notAfter_iff {a b : SourceFile} : notAfter a b = true ↔ a.order ≤ b.order := by
  unfold notAfter
  rw [order, order, Prod.Lex.toLex_le_toLex, ← not_lt, Bool.or_eq_true, Bool.and_eq_true,
    Path.componentsBefore_iff, Bool.not_eq_true', ← Bool.not_eq_true, Path.componentsBefore_iff,
    ← Path.same_iff]
  rfl

/-- Files in order: by their place, and files of one place by their path. -/
theorem pairwise_mergeSort_notAfter (fs : List SourceFile) :
    (fs.mergeSort notAfter).Pairwise fun a b => a.order ≤ b.order := by
  have htrans (a b c : SourceFile) (hab : notAfter a b = true) (hbc : notAfter b c = true) :
      notAfter a c = true :=
    notAfter_iff.mpr ((notAfter_iff.mp hab).trans (notAfter_iff.mp hbc))
  have htotal (a b : SourceFile) : (notAfter a b || notAfter b a) = true := by
    rw [Bool.or_eq_true, notAfter_iff, notAfter_iff]
    exact le_total a.order b.order
  exact (List.pairwise_mergeSort htrans htotal fs).imp notAfter_iff.mp

theorem exists_parts_of_collect {filter : SourceFilter} {roots : List Path} {l : List SourceFile}
    (h : collect t filter roots = .ok l) :
    ∃ part, (∀ root ∈ roots, belowRoot t filter root = .ok (part root)) ∧
      l = (roots.flatMap part).mergeSort notAfter := by
  obtain ⟨parts, hparts, h⟩ := exists_of_bind_eq_ok h
  cases h
  obtain ⟨part, hpart, rfl⟩ := exists_of_mapM_eq_ok hparts
  exact ⟨part, hpart, rfl⟩

theorem collect_of_parts {filter : SourceFilter} {roots : List Path}
    {part : Path → List SourceFile}
    (h : ∀ root ∈ roots, belowRoot t filter root = .ok (part root)) :
    collect t filter roots = .ok ((roots.flatMap part).mergeSort notAfter) := by
  unfold collect
  rw [mapM_of_forall_eq_ok h]
  rfl

/-- Two sorted lists of the same files have files of the same place and path at every position. -/
theorem forall₂_same_of_perm {fs gs : List SourceFile} (h : fs.Perm gs) :
    List.Forall₂ (fun a b => a.relative.same b.relative = true ∧ a.path.same b.path = true)
      (fs.mergeSort notAfter) (gs.mergeSort notAfter) := by
  have horders : (fs.mergeSort notAfter).map order = (gs.mergeSort notAfter).map order := by
    refine List.Perm.eq_of_pairwise (fun _ _ _ _ => le_antisymm)
      (List.pairwise_map.mpr (pairwise_mergeSort_notAfter fs))
      (List.pairwise_map.mpr (pairwise_mergeSort_notAfter gs)) (List.Perm.map order ?_)
    exact (List.mergeSort_perm fs notAfter).trans (h.trans (List.mergeSort_perm gs notAfter).symm)
  rw [← List.forall₂_eq_eq_eq, List.forall₂_map_left_iff, List.forall₂_map_right_iff] at horders
  refine horders.imp fun a b hab => ?_
  rw [Path.same_iff, Path.same_iff]
  exact Prod.mk.inj (toLex_inj.mp hab)

/-- A collection succeeds where every root can be walked.  It lists for every root the files that
come from it, each path once, sorted by place and then by path; and the order of the roots does not
count. -/
theorem collect_lists (ht : t.Wellformed) (wanted unwanted dirs : List String)
    (roots : List Path) :
    ((∃ l, collect t (.ofExtensions wanted unwanted dirs) roots = .ok l) ↔
        ∀ root ∈ roots, t.Walkable dirs.contains root) ∧
      ∀ l, collect t (.ofExtensions wanted unwanted dirs) roots = .ok l →
        (∃ listed : Path → List SourceFile, l.Perm (roots.flatMap listed) ∧
          ∀ root ∈ roots, ((listed root).map path).Nodup ∧
            ∀ f, f ∈ listed root ↔ ComesFrom t wanted unwanted dirs root f) ∧
        (l.Pairwise fun a b => a.relative.order < b.relative.order ∨
          a.relative.order = b.relative.order ∧ a.path.order ≤ b.path.order) ∧
        ∀ roots', roots.Perm roots' →
          ∃ l', collect t (.ofExtensions wanted unwanted dirs) roots' = .ok l' ∧
            List.Forall₂ (fun a b => a.relative.same b.relative = true ∧ a.path.same b.path = true)
              l l' := by
  refine ⟨⟨?_, fun hroots => ?_⟩, fun l hl => ?_⟩
  · rintro ⟨l, hl⟩ root hroot
    obtain ⟨part, hpart, -⟩ := exists_parts_of_collect hl
    exact (exists_belowRoot_iff ht).mp ⟨_, hpart root hroot⟩
  · have hparts : ∀ root ∈ roots, ∃ part,
        belowRoot t (.ofExtensions wanted unwanted dirs) root = .ok part :=
      fun root hroot => (exists_belowRoot_iff ht).mpr (hroots root hroot)
    choose! part hpart using hparts
    exact ⟨_, collect_of_parts hpart⟩
  · obtain ⟨part, hpart, rfl⟩ := exists_parts_of_collect hl
    have hlists (root : Path) (hroot : root ∈ roots) := belowRoot_lists ht (hpart root hroot)
    refine ⟨⟨part, List.mergeSort_perm _ _, hlists⟩, ?_, fun roots' hroots => ?_⟩
    · exact (pairwise_mergeSort_notAfter _).imp fun hab => Prod.Lex.toLex_le_toLex.mp hab
    · exact ⟨_, collect_of_parts fun root hroot => hpart root (hroots.mem_iff.mpr hroot),
        forall₂_same_of_perm (hroots.flatMap_right part)⟩

/-- A tree with a link to a directory, and with one of a name to leave out. -/
def linkedTree : FileTree where
  entries :=
    [(["w"], .directory), (["src", "w"], .directory), (["a.c", "src", "w"], .file []),
      (["old", "src", "w"], .directory), (["b.c", "old", "src", "w"], .file []),
      (["sub", "src", "w"], .directory), (["D.H", "sub", "src", "w"], .file []),
      (["lib", "src", "w"], .link ⟨"../lib"⟩), (["lib", "w"], .directory),
      (["e.c", "lib", "w"], .file []), (["note.txt", "lib", "w"], .file []),
      (["one.c", "w"], .file [])]
  workdir := ["w"]

theorem collect_linkedTree :
    linkedTree.Wellformed ∧
      (∀ root ∈ [⟨"src"⟩, ⟨"src/sub"⟩, ⟨"one.c"⟩], linkedTree.Walkable ["old"].contains root) ∧
      ∃ l, collect linkedTree (.ofExtensions ["*.c", " .h "] [] ["old"])
          [⟨"src"⟩, ⟨"src/sub"⟩, ⟨"one.c"⟩] = .ok l ∧
        (l.map fun f => (f.path.text, f.relative.text)).Perm
          [("src/sub/D.H", "D.H"), ("src/a.c", "a.c"), ("src/lib/e.c", "lib/e.c"),
            ("one.c", "one.c"), ("src/sub/D.H", "sub/D.H")] ∧
        (∃ listed : Path → List SourceFile,
          l.Perm ([⟨"src"⟩, ⟨"src/sub"⟩, ⟨"one.c"⟩].flatMap listed) ∧
            ∀ root ∈ [⟨"src"⟩, ⟨"src/sub"⟩, ⟨"one.c"⟩], ((listed root).map path).Nodup ∧
              ∀ f, f ∈ listed root ↔ ComesFrom linkedTree ["*.c", " .h "] [] ["old"] root f) ∧
        l.Pairwise fun a b => a.relative.order < b.relative.order ∨
          a.relative.order = b.relative.order ∧ a.path.order ≤ b.path.order := by
  have hwellformed : linkedTree.Wellformed := by decide
  have hwanted : Text.normalizeExtensions ["*.c", " .h "] = ["c", "h"] := by
    rw [Text.normalizeExtensions_eq]
    decide +kernel
  have hfilter : SourceFilter.ofExtensions ["*.c", " .h "] [] ["old"] =
      ⟨["c", "h"], [], ["old"]⟩ := by
    rw [SourceFilter.ofExtensions, hwanted, Text.normalizeExtensions_eq]
    rfl
  -- the run up to the sorting, which is not evaluated
  have hrun : ([⟨"src"⟩, ⟨"src/sub"⟩, ⟨"one.c"⟩].mapM
      (belowRoot linkedTree (.ofExtensions ["*.c", " .h "] [] ["old"]))).toOption.map
        (fun parts => parts.flatten.map fun f => (f.path.text, f.relative.text)) =
      some [("src/a.c", "a.c"), ("src/sub/D.H", "sub/D.H"), ("src/lib/e.c", "lib/e.c"),
        ("src/sub/D.H", "D.H"), ("one.c", "one.c")] := by
    rw [hfilter]
    decide +kernel
  obtain ⟨parts, hparts, htexts⟩ := Option.map_eq_some_iff.mp hrun
  have hcollect : collect linkedTree (.ofExtensions ["*.c", " .h "] [] ["old"])
      [⟨"src"⟩, ⟨"src/sub"⟩, ⟨"one.c"⟩] = .ok (parts.flatten.mergeSort notAfter) := by
    unfold collect
    rw [eq_ok_of_toOption hparts]
    rfl
  obtain ⟨hwalkable, hlists⟩ := collect_lists hwellformed ["*.c", " .h "] [] ["old"]
    [⟨"src"⟩, ⟨"src/sub"⟩, ⟨"one.c"⟩]
  obtain ⟨hlisted, hsorted, -⟩ := hlists _ hcollect
  refine ⟨hwellformed, hwalkable.mp ⟨_, hcollect⟩, _, hcollect, ?_, hlisted, hsorted⟩
  refine ((List.mergeSort_perm _ _).map _).trans ?_
  rw [htexts]
  decide

end SourceFile

end Preprocessor
