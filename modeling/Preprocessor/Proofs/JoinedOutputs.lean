/-
The changes of several trees, joined.

Each of several trees has come about from one, and they are joined into a tree that has all their
changes.  If no two of them change a place in different ways, there is one such tree, whatever the
order in which the changes are made.  A path that all the changes together leave undisturbed is
undisturbed by some of them.
-/
import Preprocessor.Proofs.CommitPlaces

namespace Preprocessor

namespace FileTree

variable {t u u' joint : FileTree} {trees done : List FileTree} {p : Path}

/-- A tree with the changes of some trees: at each place it holds what one of them has changed, or
what was there if none has. -/
structure Joins (t : FileTree) (trees : List FileTree) (u : FileTree) : Prop where
  workdir : u.workdir = t.workdir
  entry : ∀ loc, (u.entry? loc = t.entry? loc ∧ ∀ d ∈ trees, d.entry? loc = t.entry? loc) ∨
    ∃ d ∈ trees, d.entry? loc ≠ t.entry? loc ∧ u.entry? loc = d.entry? loc

/-- Two trees that do not change a place in different ways. -/
def Agree (t u u' : FileTree) : Prop :=
  ∀ loc, u.entry? loc ≠ t.entry? loc → u'.entry? loc ≠ t.entry? loc → u.entry? loc = u'.entry? loc

namespace Joins

theorem nil (t : FileTree) : Joins t [] t :=
  ⟨rfl, fun _ => .inl ⟨rfl, List.forall_mem_nil _⟩⟩

theorem congr (h : Joins t trees u) (hmem : ∀ d, d ∈ done ↔ d ∈ trees) : Joins t done u := by
  refine ⟨h.workdir, fun loc => (h.entry loc).imp (And.imp_right ?_) ?_⟩
  · exact fun hsame d hd => hsame d ((hmem d).mp hd)
  · rintro ⟨d, hd, hchange⟩
    exact ⟨d, (hmem d).mpr hd, hchange⟩

theorem evolves (h : Joins t trees u) (ht : ∀ d ∈ trees, Evolves t d) : Evolves t u where
  workdir := h.workdir
  entry loc := by
    rcases h.entry loc with ⟨hsame, -⟩ | ⟨d, hd, -, hchange⟩
    · rw [hsame]
      exact .same
    · rw [hchange]
      exact (ht d hd).entry loc

/-- A tree with some of the changes holds at each place what was there or what is there in the
end. -/
theorem partway (h : Joins t done u) (h' : Joins t trees joint) (hdone : done ⊆ trees)
    (hagree : ∀ d ∈ trees, ∀ d' ∈ trees, Agree t d d') (loc : Location) :
    u.entry? loc = t.entry? loc ∨ u.entry? loc = joint.entry? loc := by
  rcases h.entry loc with ⟨hsame, -⟩ | ⟨d, hd, hne, hchange⟩
  · exact .inl hsame
  · rcases h'.entry loc with ⟨-, hsame⟩ | ⟨d', hd', hne', hchange'⟩
    · exact absurd (hsame d (hdone hd)) hne
    · rw [hchange, hchange']
      exact .inr (hagree d (hdone hd) d' hd' loc hne hne')

/-- Trees that do not change a place in different ways are joined in one way only. -/
theorem unique (h : Joins t trees u) (h' : Joins t trees u')
    (hagree : ∀ d ∈ trees, ∀ d' ∈ trees, Agree t d d') (loc : Location) :
    u.entry? loc = u'.entry? loc := by
  rcases h.partway h' (List.Subset.refl _) hagree loc with hsame | hchange
  · rcases h.entry loc with ⟨-, hall⟩ | ⟨d, -, hne, hchange⟩
    · rcases h'.entry loc with ⟨hsame', -⟩ | ⟨d, hd, hne, -⟩
      · rw [hsame, hsame']
      · exact absurd (hall d hd) hne
    · exact absurd (hchange.symm.trans hsame) hne
  · exact hchange

/-- A change that is taken on at places where the others agree with it joins them. -/
theorem adopts {d : FileTree} {places : List Location} (h : Joins t done u)
    (hadopts : Adopts d u u' places) (hframe : ∀ loc ∉ places, d.entry? loc = t.entry? loc)
    (hplaces : ∀ loc ∈ places, d.entry? loc = t.entry? loc →
      ∀ d' ∈ done, d'.entry? loc = t.entry? loc) : Joins t (done ++ [d]) u' where
  workdir := hadopts.workdir.trans h.workdir
  entry loc := by
    by_cases hloc : loc ∈ places
    · rw [hadopts.inside loc hloc]
      by_cases hsame : d.entry? loc = t.entry? loc
      · exact .inl ⟨hsame, List.forall_mem_append.mpr
          ⟨hplaces loc hloc hsame, List.forall_mem_singleton.mpr hsame⟩⟩
      · exact .inr ⟨d, by simp, hsame, rfl⟩
    · rw [hadopts.outside loc hloc]
      refine (h.entry loc).imp (And.imp_right fun hall => ?_) ?_
      · exact List.forall_mem_append.mpr ⟨hall, List.forall_mem_singleton.mpr (hframe loc hloc)⟩
      · rintro ⟨d', hd', hchange⟩
        exact ⟨d', List.mem_append_left _ hd', hchange⟩

end Joins

/-- The tree with the changes of some trees.  The first of them counts where several change a
place. -/
def overlay (t : FileTree) (trees : List FileTree) : FileTree :=
  { t with
    entries := (trees.flatMap fun d =>
      d.entries.filter fun entry => d.entry? entry.1 != t.entry? entry.1) ++ t.entries }

theorem entry?_overlay_cons {d : FileTree} (hd : Evolves t d) (trees : List FileTree)
    (loc : Location) :
    FileTree.entry? (t.overlay (d :: trees)) loc =
      if d.entry? loc = t.entry? loc then FileTree.entry? (t.overlay trees) loc
      else d.entry? loc := by
  cases loc with
  | nil => exact (if_pos rfl).symm
  | cons name dir =>
      have hlookup : FileTree.entry? (t.overlay (d :: trees)) (name :: dir) =
          ((d.entries.filter fun entry => d.entry? entry.1 != t.entry? entry.1).lookup
            (name :: dir)).or ( FileTree.entry? (t.overlay trees) (name :: dir)) := by
        change (t.overlay (d :: trees)).entries.lookup (name :: dir) = _
        rw [overlay, List.flatMap_cons, List.append_assoc, List.lookup_append]
        rfl
      rw [hlookup, lookup_filter_location fun loc => d.entry? loc != t.entry? loc]
      have hbecomes := hd.entry (name :: dir)
      split
      · rename_i hne
        rw [if_neg (by simpa using hne)]
        change (d.entry? (name :: dir)).or _ = _
        generalize d.entry? (name :: dir) = x, t.entry? (name :: dir) = y at *
        cases hbecomes with
        | same => simp at hne
        | made => rfl
        | written => rfl
      · rename_i hsame
        rw [if_pos (by simpa using hsame), Option.none_or]

theorem joins_overlay (h : ∀ d ∈ trees, Evolves t d) : Joins t trees (t.overlay trees) where
  workdir := rfl
  entry loc := by
    induction trees with
    | nil => exact .inl ⟨rfl, List.forall_mem_nil _⟩
    | cons d trees ih =>
        obtain ⟨hd, htrees⟩ := List.forall_mem_cons.mp h
        rw [entry?_overlay_cons hd]
        split
        · rename_i hsame
          refine (ih htrees).imp (And.imp_right fun hall => ?_) ?_
          · exact List.forall_mem_cons.mpr ⟨hsame, hall⟩
          · rintro ⟨d', hd', hchange⟩
            exact ⟨d', List.mem_cons_of_mem _ hd', hchange⟩
        · rename_i hne
          exact .inr ⟨d, List.mem_cons_self, hne, rfl⟩

/-- A path that is undisturbed in the end names the same in a tree that holds at each place what was
there or what is there in the end. -/
theorem Undisturbed.namesAlike_of_partway (hp : Undisturbed t joint p) (h : Evolves t joint)
    (hworkdir : u.workdir = t.workdir)
    (hu : ∀ loc, u.entry? loc = t.entry? loc ∨ u.entry? loc = joint.entry? loc) :
    NamesAlike t u p := by
  have hworkdir' : joint.workdir = u.workdir := h.workdir.trans hworkdir.symm
  rcases hp with hmissing | hplaces
  · refine namesAlike_of_notFound
      (locate_of_becomes h.workdir (fun loc _ => h.entry loc) hmissing)
      (locate_of_becomes hworkdir' (fun loc _ => ?_) hmissing)
    rcases hu loc with hbefore | hafter
    · rw [hbefore]
      exact h.entry loc
    · rw [hafter]
      exact .same
  · have hsame : ∀ loc ∈ joint.places p, u.entry? loc = joint.entry? loc := fun loc hloc =>
      (hu loc).elim (fun hbefore => hbefore.trans (hplaces loc hloc).symm) id
    have halike := namesAlike_of_places hworkdir'.symm hsame
    have halike' := namesAlike_of_places h.workdir.symm fun loc hloc => (hplaces loc hloc).symm
    exact ⟨halike.locate.trans halike'.locate.symm, halike.find?.trans halike'.find?.symm⟩

end FileTree

end Preprocessor
