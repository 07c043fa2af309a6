/-
The steps of a path and of the path around it.

The parent of a path is written anew from pieces of its text.  It is followed in steps with which
the path itself begins, and there is no slash at its end that could be left out.
-/
import Preprocessor.Proofs.FileChanges

namespace Preprocessor

namespace Path

/-! ## Pieces -/

theorem pieces_eq_splitOn (cs : List Char) : pieces cs = cs.splitOn '/' := by
  induction cs with
  | nil => rfl
  | cons c cs ih =>
      rw [List.splitOn, List.splitOnP_cons_eq_if_modifyHead, pieces, ih]
      split
      · rfl
      · rw [List.splitOn]
        cases hsplit : List.splitOnP (· == '/') cs with
        | nil => exact absurd hsplit (List.splitOnP_ne_nil _ _)
        | cons p ps => rfl

theorem joinPieces_eq_intercalate (ps : List (List Char)) :
    joinPieces ps = ['/'].intercalate ps := by
  induction ps with
  | nil => rfl
  | cons p ps ih =>
      cases ps with
      | nil => simp [joinPieces, List.intercalate]
      | cons q ps =>
          rw [List.intercalate_cons_cons, ← ih, ← List.append_cons]
          rfl

theorem pieces_joinPieces {ps : List (List Char)} (h : ∀ p ∈ ps, '/' ∉ p) (hne : ps ≠ []) :
    pieces (joinPieces ps) = ps := by
  rw [pieces_eq_splitOn, joinPieces_eq_intercalate]
  exact List.splitOn_intercalate '/' h hne

theorem not_mem_of_mem_pieces {cs piece : List Char} (h : piece ∈ pieces cs) : '/' ∉ piece := by
  induction cs generalizing piece with
  | nil => simp_all [pieces]
  | cons c cs ih =>
      rw [pieces] at h
      split at h
      · rcases List.mem_cons.mp h with rfl | hmem
        · exact List.not_mem_nil
        · exact ih hmem
      · rename_i hc
        have hne : '/' ≠ c := fun heq => hc (beq_iff_eq.mpr heq.symm)
        split at h
        · simp_all
        · rename_i p ps hpieces
          rw [hpieces] at ih
          rcases List.mem_cons.mp h with rfl | hmem
          · exact List.not_mem_cons_of_ne_of_not_mem hne (ih List.mem_cons_self)
          · exact ih (List.mem_cons_of_mem _ hmem)

theorem ne_nil_of_pieces {cs first : List Char} {rest : List (List Char)}
    (h : pieces cs = first :: rest) (hrest : rest ≠ []) (hcs : cs.head? ≠ some '/') :
    first ≠ [] := by
  cases cs with
  | nil =>
      cases h
      exact absurd rfl hrest
  | cons c cs =>
      rw [pieces, if_neg (by simpa using hcs)] at h
      split at h <;> cases h <;> exact List.cons_ne_nil _ _

theorem getLast?_joinPieces (init : List (List Char)) {piece : List Char} (h : piece ≠ []) :
    (joinPieces (init ++ [piece])).getLast? = piece.getLast? := by
  induction init with
  | nil => rfl
  | cons p init ih =>
      have hjoin : joinPieces (p :: (init ++ [piece])) =
          p ++ '/' :: joinPieces (init ++ [piece]) := by
        cases init <;> rfl
      have hsome : piece.getLast? ≠ none := fun hnone => h (List.getLast?_eq_none_iff.mp hnone)
      rw [List.cons_append, hjoin, List.getLast?_append_of_ne_nil _ (List.cons_ne_nil _ _),
        List.getLast?_cons, ih]
      obtain ⟨c, hc⟩ := Option.ne_none_iff_exists'.mp hsome
      rw [hc]
      rfl

/-! ## Steps -/

def step (piece : List Char) : Component :=
  if piece == [] || piece == ['.'] then .here
  else if piece == ['.', '.'] then .up
  else .name (String.ofList piece)

def pieceSteps (ps : List (List Char)) : List Component :=
  (ps.dropLast.filter (!·.isEmpty) ++ ps.getLast?.toList).map step

theorem steps_eq (p : Path) :
    p.steps = (if p.isAbsolute then [.root] else []) ++ pieceSteps p.body := rfl

theorem pieceSteps_append (ps : List (List Char)) {qs : List (List Char)} (h : qs ≠ []) :
    pieceSteps (ps ++ qs) = (ps.filter (!·.isEmpty)).map step ++ pieceSteps qs := by
  unfold pieceSteps
  rw [List.dropLast_append_of_ne_nil h, List.getLast?_append_of_ne_nil _ h, List.filter_append,
    List.append_assoc, List.map_append]

theorem pieceSteps_concat (init : List (List Char)) {piece : List Char} (h : piece ≠ []) :
    pieceSteps (init ++ [piece]) = ((init ++ [piece]).filter (!·.isEmpty)).map step := by
  rw [pieceSteps_append init (List.cons_ne_nil _ _), List.filter_append, List.map_append]
  cases piece with
  | nil => exact absurd rfl h
  | cons c cs => rfl

theorem pieceSteps_ne_nil {ps : List (List Char)} (h : ps ≠ []) : pieceSteps ps ≠ [] := by
  rw [← List.dropLast_append_getLast h, pieceSteps_append _ (List.cons_ne_nil _ _)]
  exact List.append_ne_nil_of_right_ne_nil _ (List.cons_ne_nil _ _)

/-! ## The parent -/

/-- What is left of pieces at a parent: less than there was, and no idle piece at the end. -/
theorem exists_of_dropIdleEnd {ps : List (List Char)} (h : dropIdleEnd ps ≠ []) :
    ∃ tail, tail ≠ [] ∧ ps = dropIdleEnd (dropIdleEnd ps).dropLast ++ tail := by
  have hfront : dropIdleEnd (dropIdleEnd ps).dropLast <+: (dropIdleEnd ps).dropLast :=
    List.rdropWhile_prefix isIdle _
  have hps : dropIdleEnd ps <+: ps := List.rdropWhile_prefix isIdle ps
  obtain ⟨tail, htail⟩ := (hfront.trans (List.dropLast_prefix _)).trans hps
  refine ⟨tail, ?_, htail.symm⟩
  rintro rfl
  have hle := hfront.length_le
  have hle' := hps.length_le
  have hpos := List.length_pos_of_ne_nil h
  rw [List.append_nil] at htail
  rw [List.length_dropLast] at hle
  have hsame := congrArg List.length htail
  omega

theorem exists_last_of_dropIdleEnd {ps : List (List Char)} (h : dropIdleEnd ps ≠ []) :
    ∃ init piece, dropIdleEnd ps = init ++ [piece] ∧ piece ≠ [] := by
  have hlast := List.rdropWhile_last_not isIdle ps h
  refine ⟨(dropIdleEnd ps).dropLast, (dropIdleEnd ps).getLast h,
    (List.dropLast_append_getLast h).symm, fun hnil => hlast ?_⟩
  have hidle : isIdle [] = true := rfl
  rwa [← hnil] at hidle

theorem head?_joinPieces {first : List Char} (h : first ≠ []) (ps : List (List Char)) :
    (joinPieces (first :: ps)).head? = first.head? := by
  cases ps with
  | nil => rfl
  | cons q ps => exact List.head?_append_of_ne_nil _ h

section

variable {ps init : List (List Char)} {piece : List Char}

theorem of_relative {first : List Char} (hps : first :: ps = init ++ [piece]) (hfirst : first ≠ [])
    (hpiece : piece ≠ []) (hslash : ∀ p ∈ first :: ps, '/' ∉ p) :
    steps ⟨String.ofList (joinPieces (first :: ps))⟩ =
        ((first :: ps).filter (!·.isEmpty)).map step ∧
      FileTree.endsInSlash ⟨String.ofList (joinPieces (first :: ps))⟩ = false := by
  have hrelative : isAbsolute ⟨String.ofList (joinPieces (first :: ps))⟩ = false := by
    rw [isAbsolute, String.toList_ofList, head?_joinPieces hfirst]
    refine beq_eq_false_iff_ne.mpr fun hhead => ?_
    exact hslash first List.mem_cons_self (List.mem_of_head? hhead)
  refine ⟨?_, ?_⟩
  · rw [steps_eq, body, hrelative, if_neg Bool.false_ne_true, if_neg Bool.false_ne_true,
      String.toList_ofList, pieces_joinPieces hslash (List.cons_ne_nil _ _), hps,
      pieceSteps_concat init hpiece, List.nil_append]
  · rw [FileTree.endsInSlash, String.toList_ofList, hps, getLast?_joinPieces init hpiece]
    refine beq_eq_false_iff_ne.mpr fun hlast => ?_
    exact hslash piece (by rw [hps]; simp) (List.mem_of_getLast? hlast)

theorem of_absolute (hps : ps = init ++ [piece]) (hpiece : piece ≠ [])
    (hslash : ∀ p ∈ ps, '/' ∉ p) :
    steps ⟨String.ofList ('/' :: joinPieces ps)⟩ =
        .root :: (ps.filter (!·.isEmpty)).map step ∧
      FileTree.endsInSlash ⟨String.ofList ('/' :: joinPieces ps)⟩ = false := by
  have habsolute : isAbsolute ⟨String.ofList ('/' :: joinPieces ps)⟩ = true := by
    rw [isAbsolute, String.toList_ofList]
    rfl
  have hne : ps ≠ [] := by
    rw [hps]
    simp
  refine ⟨?_, ?_⟩
  · rw [steps_eq, body, habsolute, if_pos rfl, if_pos rfl, String.toList_ofList, List.tail_cons,
      pieces_joinPieces hslash hne, hps, pieceSteps_concat init hpiece]
    rfl
  · have hlast : (joinPieces ps).getLast? = piece.getLast? := by
      rw [hps, getLast?_joinPieces init hpiece]
    obtain ⟨c, hc⟩ := Option.ne_none_iff_exists'.mp
      (fun hnone => hpiece (List.getLast?_eq_none_iff.mp hnone))
    rw [FileTree.endsInSlash, String.toList_ofList, List.getLast?_cons, hlast, hc]
    refine beq_eq_false_iff_ne.mpr fun hslash' => ?_
    have hc' : c = '/' := Option.some.inj hslash'
    rw [hc'] at hc
    exact hslash piece (by rw [hps]; simp) (List.mem_of_getLast? hc)

end

section

variable {p outer : Path}

theorem steps_of_absolute (habsolute : p.isAbsolute = true) (h : p.parent = some outer) :
    FileTree.withoutEndSlashes outer = outer ∧
      ∃ init last, p.steps = init ++ last ∧ last ≠ [] ∧
        (outer.steps = init ∨ outer = ⟨"/"⟩ ∧ init = [.root]) := by
  have hslash : ∀ piece ∈ p.body, '/' ∉ piece := fun piece => not_mem_of_mem_pieces
  have hsteps : p.steps = .root :: pieceSteps p.body := by
    rw [steps_eq, habsolute, if_pos rfl]
    rfl
  rw [parent, if_pos habsolute] at h
  split at h
  · cases h
  · rename_i hps
    obtain rfl := Option.some.inj h
    obtain ⟨tail, htail, hbody⟩ := exists_of_dropIdleEnd hps
    generalize hm : dropIdleEnd (dropIdleEnd p.body).dropLast = m at hbody
    rw [hsteps, hbody, pieceSteps_append m htail]
    by_cases hnil : m = []
    · subst hnil
      exact ⟨by decide, [.root], pieceSteps tail, rfl, pieceSteps_ne_nil htail, .inr ⟨rfl, rfl⟩⟩
    · obtain ⟨init, piece, hlast, hpiece⟩ := exists_last_of_dropIdleEnd (hm ▸ hnil)
      rw [hm] at hlast
      rw [hbody] at hslash
      obtain ⟨houter, hend⟩ := of_absolute hlast hpiece fun q hq =>
        hslash q (List.mem_append_left _ hq)
      exact ⟨FileTree.withoutEndSlashes_eq hend, _, pieceSteps tail, rfl,
        pieceSteps_ne_nil htail, .inl houter⟩

theorem steps_of_relative (hrelative : ¬p.isAbsolute = true) (h : p.parent = some outer)
    (hne : outer.text ≠ "") :
    FileTree.withoutEndSlashes outer = outer ∧
      ∃ last, p.steps = outer.steps ++ last ∧ last ≠ [] := by
  have hslash : ∀ piece ∈ p.body, '/' ∉ piece := fun piece => not_mem_of_mem_pieces
  have hsteps : p.steps = pieceSteps p.body := by
    rw [steps_eq, if_neg hrelative]
    rfl
  rw [parent, if_neg hrelative] at h
  split at h
  · cases h
  · rename_i first rest hfirst
    split at h
    · split at h
      · cases h
      · obtain rfl := Option.some.inj h
        exact absurd rfl hne
    · rename_i hps
      obtain rfl := Option.some.inj h
      obtain ⟨tail, htail, hrest⟩ := exists_of_dropIdleEnd hps
      generalize hm : dropIdleEnd (dropIdleEnd rest).dropLast = m at hrest
      have hbody : p.body = (first :: m) ++ tail := by rw [hfirst, hrest, List.cons_append]
      have hfirst' : first ≠ [] := by
        rw [body, if_neg hrelative] at hfirst
        refine ne_nil_of_pieces hfirst (fun hnil => ?_) (by simpa [isAbsolute] using hrelative)
        exact hps (by rw [hnil]; rfl)
      have hlast : ∃ init piece, first :: m = init ++ [piece] ∧ piece ≠ [] := by
        by_cases hnil : m = []
        · exact ⟨[], first, by rw [hnil]; rfl, hfirst'⟩
        · obtain ⟨init, piece, hlast, hpiece⟩ := exists_last_of_dropIdleEnd (hm ▸ hnil)
          rw [hm] at hlast
          exact ⟨first :: init, piece, by rw [hlast, List.cons_append], hpiece⟩
      obtain ⟨init, piece, hinit, hpiece⟩ := hlast
      rw [hbody] at hslash
      obtain ⟨houter, hend⟩ := of_relative hinit hfirst' hpiece fun q hq =>
        hslash q (List.mem_append_left _ hq)
      rw [hsteps, hbody, pieceSteps_append _ htail, houter]
      exact ⟨FileTree.withoutEndSlashes_eq hend, pieceSteps tail, rfl, pieceSteps_ne_nil htail⟩

/-- The parent of a path is followed in steps with which the path begins, and the path goes on.
Only the root is written with a step more.  Nothing at the end of the parent can be left out. -/
theorem exists_steps_of_parent (h : p.parent = some outer) (hne : outer.text ≠ "") :
    FileTree.withoutEndSlashes outer = outer ∧
      ∃ init last, p.steps = init ++ last ∧ last ≠ [] ∧
        (outer.steps = init ∨ outer = ⟨"/"⟩ ∧ init = [.root]) := by
  by_cases habsolute : p.isAbsolute = true
  · exact steps_of_absolute habsolute h
  · obtain ⟨hend, last, hsteps, hlast⟩ := steps_of_relative habsolute h hne
    exact ⟨hend, outer.steps, last, hsteps, hlast, .inl rfl⟩

end

end Path

end Preprocessor
