/-
What is left of the sources once the destination is cleared.

Clearing removes the entries inside the destination and no others.  The check before it compares
places: no source root names a place in the destination.  So what a root names stays, and all below
it unless the destination itself is below the root.  A path may still lead through the destination
to a place outside of it, by a link or by going up again, and then it leads nowhere afterwards.

Places are compared with links followed on both sides.  A root under another name, or one that is
reached through a link, is therefore found in the destination as well.  What the check does not
cover is a destination below a root: the files of the root that are in the destination are cleared,
although they are sources.  The statement is about every path, not only those of files that were
collected, and the condition on a path is that no place on its way is in the destination.
-/
import Preprocessor.Proofs.PathJoining
import Preprocessor.Proofs.PathPlaces
import Preprocessor.Proofs.SessionTrace

namespace Preprocessor

namespace FileTree

variable {t t' : FileTree} {p q : Path} {loc top : Location}

/-! ## Places in a directory -/

/-- Whether a place lies inside the directory that a path names. -/
def isInside (t : FileTree) (p : Path) (loc : Location) : Bool :=
  match t.locate p with
  | .ok top => isBelow loc top && loc != top
  | .error _ => false

/-- A path that leads over no place inside the directory that another names. -/
def Avoids (t : FileTree) (p q : Path) : Prop :=
  ∀ loc ∈ t.places q, t.isInside p loc = false

instance (t : FileTree) (p q : Path) : Decidable (t.Avoids p q) :=
  inferInstanceAs (Decidable (∀ loc ∈ t.places q, t.isInside p loc = false))

theorem isBelow_iff : isBelow loc top = true ↔ top <:+ loc :=
  List.isSuffixOf_iff_suffix

theorem componentsAfter_of_isBelow (h : isBelow loc top = true) :
    (Path.componentsAfter (locationComponents top) (locationComponents loc)).isSome = true := by
  obtain ⟨inner, rfl⟩ := isBelow_iff.mp h
  have happend : locationComponents (inner ++ top) =
      locationComponents top ++ inner.reverse.map .name := by
    simp [locationComponents]
  rw [happend, Path.componentsAfter_append]
  rfl

theorem isBelow_or_isBelow {top' : Location} (h : isBelow loc top = true)
    (h' : isBelow loc top' = true) : isBelow top top' = true ∨ isBelow top' top = true := by
  rw [isBelow_iff] at h h' ⊢
  rw [isBelow_iff]
  exact List.suffix_or_suffix_of_suffix h' h

/-! ## Clearing -/

theorem entry?_removeBelow (h : (isBelow loc top && loc != top) = false) :
    FileTree.entry? (t.removeBelow top) loc = t.entry? loc := by
  have hkeeps : (loc == top || !isBelow loc top) = true := by
    rw [← Bool.not_not (loc == top), ← Bool.not_and, Bool.and_comm]
    exact congrArg (!·) h
  cases loc with
  | nil => rfl
  | cons s dir =>
      refine (lookup_filter_location (fun l => l == top || !isBelow l top) _ t.entries).trans ?_
      exact if_pos hkeeps

theorem exists_of_clear (h : t.clear p = .ok t') :
    ∃ top, t.locate p = .ok top ∧ t' = t.removeBelow top := by
  unfold clear at h
  split at h
  · cases h
  · rename_i top hlocate
    split at h
    · cases h
      exact ⟨top, hlocate, rfl⟩
    · cases h

theorem entry?_of_clear (h : t.clear p = .ok t') (hloc : t.isInside p loc = false) :
    t'.entry? loc = t.entry? loc := by
  obtain ⟨top, hlocate, rfl⟩ := exists_of_clear h
  rw [isInside, hlocate] at hloc
  exact entry?_removeBelow hloc

theorem namesAlike_of_clear (h : t.clear p = .ok t') (hq : t.Avoids p q) : NamesAlike t t' q := by
  refine namesAlike_of_places ?_ fun loc hloc => entry?_of_clear h (hq loc hloc)
  obtain ⟨top, -, rfl⟩ := exists_of_clear h
  rfl

end FileTree

namespace Session

open FileTree

variable {σ : Type} {c : Config} {state state' : SessionState σ}

/-- Clearing that neither refuses nor fails: nothing was there, or no root was in danger. -/
theorem cases_of_clearDestination (h : (clearDestination c).run state = (.ok (), state')) :
    state' = state ∨
      endangeredRoot? c state.tree = none ∧ state.tree.clear c.destination = .ok state'.tree := by
  have hget : (get : SessionM σ (SessionState σ)).run state = (.ok state, state) := rfl
  unfold clearDestination at h
  rw [run_bind_of_ok hget] at h
  dsimp only at h
  split at h
  · cases h
    exact .inl rfl
  · split at h
    · cases h
    · rename_i hroots
      have hnote : (SessionM.note .info ("Clearing " ++ c.destination.text)).run state =
          (.ok (), { state with
            log := state.log.push ⟨.info, "Clearing " ++ c.destination.text⟩ }) := rfl
      rw [run_bind_of_ok hnote] at h
      split at h
      · cases h
      · rename_i t hclear
        cases h
        exact .inr ⟨hroots, hclear⟩

theorem isBelow_of_endangeredRoot? {t : FileTree} {root : Path} {loc top : Location}
    (h : endangeredRoot? c t = none) (hroot : root ∈ c.sources) (hloc : t.locate root = .ok loc)
    (htop : t.locate c.destination = .ok top) : isBelow loc top = false := by
  have hsafe := List.find?_eq_none.mp h root hroot
  unfold canonical at hsafe
  rw [hloc, htop] at hsafe
  exact eq_false_of_ne_true fun hbelow => hsafe (componentsAfter_of_isBelow hbelow)

/-- Below what a root names, clearing reaches only what is in a destination below it. -/
theorem isInside_of_endangeredRoot? {t : FileTree} {root : Path} {loc top : Location}
    (h : endangeredRoot? c t = none) (hroot : root ∈ c.sources) (htop : t.locate root = .ok top)
    (hloc : isBelow loc top = true)
    (hapart : ∀ place, t.locate c.destination = .ok place → isBelow place top = false) :
    t.isInside c.destination loc = false := by
  unfold isInside
  split
  · rename_i place hplace
    have houter := isBelow_of_endangeredRoot? h hroot htop hplace
    have hinner := hapart place hplace
    refine Bool.and_eq_false_iff.mpr (.inl (eq_false_of_ne_true fun hbelow => ?_))
    rcases isBelow_or_isBelow hloc hbelow with hcase | hcase
    · exact absurd (houter.symm.trans hcase) Bool.false_ne_true
    · exact absurd (hinner.symm.trans hcase) Bool.false_ne_true
  · rfl

/-- The destination is cleared: all that is not inside of it stays.  Every path that leads over no
place inside the destination names what it named before, with the same content, whether it is a
source root, leads to a file below one or to anything else.  For every source root, the place that
it names keeps its entry, and so do the places below if the destination is not there. -/
theorem kept_of_clearDestination (h : (clearDestination c).run state = (.ok (), state')) :
    (∀ loc, state.tree.isInside c.destination loc = false →
      state'.tree.entry? loc = state.tree.entry? loc) ∧
    (∀ q, state.tree.Avoids c.destination q →
      NamesAlike state.tree state'.tree q ∧ state'.tree.read q = state.tree.read q) ∧
    ∀ root ∈ c.sources, ∀ top, state.tree.locate root = .ok top →
      state'.tree.entry? top = state.tree.entry? top ∧
      ((∀ place, state.tree.locate c.destination = .ok place → isBelow place top = false) →
        ∀ loc, isBelow loc top = true → state'.tree.entry? loc = state.tree.entry? loc) := by
  rcases cases_of_clearDestination h with rfl | ⟨hroots, hclear⟩
  · exact ⟨fun _ _ => rfl, fun _ _ => ⟨⟨rfl, rfl⟩, rfl⟩,
      fun _ _ _ _ => ⟨rfl, fun _ _ _ => rfl⟩⟩
  · have hkeeps (loc : Location) (hloc : state.tree.isInside c.destination loc = false) :
        state'.tree.entry? loc = state.tree.entry? loc := entry?_of_clear hclear hloc
    refine ⟨hkeeps, fun q hq => ?_, fun root hroot top htop => ⟨hkeeps top ?_, ?_⟩⟩
    · have halike := namesAlike_of_clear hclear hq
      exact ⟨halike, halike.read⟩
    · unfold isInside
      split
      · rename_i place hplace
        rw [isBelow_of_endangeredRoot? hroots hroot htop hplace]
        rfl
      · rfl
    · intro hapart loc hloc
      exact hkeeps loc (isInside_of_endangeredRoot? hroots hroot htop hloc hapart)

/-! ## A destination below a root -/

/-- A library with a destination beside it, in which an old file is. -/
def besideLibrary : FileTree where
  entries := [(["lib"], .directory), (["a.txt", "lib"], .file [97]), (["out"], .directory),
    (["b.txt", "out"], .file [98])]

/-- All files are sources, those in the destination as well. -/
def clearsBelowRoot : Config where
  sources := [⟨"."⟩]
  destination := ⟨"out"⟩

theorem clearDestination_besideLibrary :
    (clearDestination clearsBelowRoot).run ⟨besideLibrary, (), #[], #[]⟩ =
      (.ok (), ⟨besideLibrary.removeBelow ["out"], (), #[⟨.info, "Clearing out"⟩], #[]⟩) :=
  Prod.ext (eq_ok_of_toOption (by decide +kernel)) rfl

/-- The file of the library that is found from above is still there with its content. -/
theorem kept_besideLibrary :
    (clearDestination clearsBelowRoot).run ⟨besideLibrary, (), #[], #[]⟩ =
      (.ok (), ⟨besideLibrary.removeBelow ["out"], (), #[⟨.info, "Clearing out"⟩], #[]⟩) ∧
    besideLibrary.Avoids ⟨"out"⟩ ⟨"./lib/a.txt"⟩ ∧
    (besideLibrary.removeBelow ["out"]).read ⟨"./lib/a.txt"⟩ = .ok [97] := by
  have havoids : besideLibrary.Avoids ⟨"out"⟩ ⟨"./lib/a.txt"⟩ := by decide +kernel
  have hkept :=
    (kept_of_clearDestination clearDestination_besideLibrary).2.1 ⟨"./lib/a.txt"⟩ havoids
  exact ⟨clearDestination_besideLibrary, havoids,
    hkept.2.trans (eq_ok_of_toOption (by decide +kernel))⟩

/-- Clearing succeeds, and a file that was found below a root is gone. -/
theorem lost_besideLibrary :
    ∃ state', (clearDestination clearsBelowRoot).run ⟨besideLibrary, (), #[], #[]⟩ =
        (.ok (), state') ∧
      besideLibrary.filesBelow (fun _ => false) ⟨"."⟩ = .ok [⟨"./lib/a.txt"⟩, ⟨"./out/b.txt"⟩] ∧
      besideLibrary.read ⟨"./out/b.txt"⟩ = .ok [98] ∧
      state'.tree.read ⟨"./out/b.txt"⟩ = .error .notFound :=
  ⟨_, clearDestination_besideLibrary, eq_ok_of_toOption (by decide +kernel),
    eq_ok_of_toOption (by decide +kernel), by rfl⟩

end Session

end Preprocessor
