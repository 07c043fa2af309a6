/-
Paths that names are joined to.

A name that is joined to a path becomes its last component, however many slashes the path ends
with, and it is followed as a last step behind the steps of the path.  Seen from the path, what
names lead to is the names themselves with slashes between them.
-/
import Mathlib.Data.List.DropRight
import Preprocessor.Proofs.PathSteps

namespace Preprocessor

namespace Path

/-- Whether a text can be the name of an entry: it is not empty, has no slash and is not made of one
or two dots. -/
def IsEntryName (s : String) : Prop :=
  s.toList ≠ [] ∧ '/' ∉ s.toList ∧ s.toList ≠ ['.'] ∧ s.toList ≠ ['.', '.']

instance (s : String) : Decidable (IsEntryName s) :=
  inferInstanceAs (Decidable (_ ∧ _))

def descend (p : Path) (names : List String) : Path :=
  names.foldl (fun p name => p.join ⟨name⟩) p

@[simp] theorem descend_nil (p : Path) : p.descend [] = p := rfl

@[simp] theorem descend_cons (p : Path) (name : String) (names : List String) :
    p.descend (name :: names) = (p.join ⟨name⟩).descend names := rfl

/-! ## Pieces -/

theorem pieces_ne_nil (cs : List Char) : pieces cs ≠ [] := by
  rw [pieces_eq_splitOn]
  exact List.splitOnP_ne_nil _ _

theorem pieces_of_not_mem {cs : List Char} (h : '/' ∉ cs) : pieces cs = [cs] :=
  pieces_joinPieces (List.forall_mem_singleton.mpr h) (List.cons_ne_nil cs [])

theorem pieces_append_slash (cs ds : List Char) :
    pieces (cs ++ '/' :: ds) = pieces cs ++ pieces ds := by
  induction cs with
  | nil => rfl
  | cons c cs ih =>
      rw [List.cons_append, pieces, pieces, ih]
      split
      · rfl
      · cases hcs : pieces cs with
        | nil => exact absurd hcs (pieces_ne_nil cs)
        | cons first rest => rfl

section

variable {p : Path} {name : String}

theorem component?_of_isEntryName (h : IsEntryName name) :
    component? name.toList = some (.name name) := by
  obtain ⟨hne, -, hdot, hdots⟩ := h
  simp [component?, isIdle, hne, hdot, hdots]

theorem step_of_isEntryName (h : IsEntryName name) : step name.toList = .name name := by
  obtain ⟨hne, -, hdot, hdots⟩ := h
  simp [step, hne, hdot, hdots]

theorem isIdle_of_isEntryName (h : IsEntryName name) : isIdle name.toList = false := by
  obtain ⟨hne, -, hdot, -⟩ := h
  simp [isIdle, hne, hdot]

theorem toList_join (h : IsEntryName name) (hp : p.text.toList ≠ []) :
    (p.join ⟨name⟩).text.toList = p.text.toList ++ name.toList ∧
        p.text.toList.getLast? = some '/' ∨
      (p.join ⟨name⟩).text.toList = p.text.toList ++ '/' :: name.toList ∧
        p.text.toList.getLast? ≠ some '/' := by
  have hrelative : isAbsolute ⟨name⟩ = false := by
    have hhead : name.toList.head? ≠ some '/' := fun hhead => h.2.1 (List.mem_of_head? hhead)
    simpa [isAbsolute] using hhead
  unfold join
  rw [if_neg (by simp [hrelative])]
  by_cases hslash : p.text.toList.getLast? = some '/'
  · left
    rw [if_pos (by simp [hslash])]
    exact ⟨by simp, hslash⟩
  · right
    rw [if_neg (by simp [hslash, List.isEmpty_iff, hp])]
    exact ⟨by simp, hslash⟩

theorem isAbsolute_join (h : IsEntryName name) (hp : p.text.toList ≠ []) :
    (p.join ⟨name⟩).isAbsolute = p.isAbsolute := by
  rcases toList_join h hp with ⟨htext, -⟩ | ⟨htext, -⟩
  · rw [isAbsolute, htext, List.head?_append_of_ne_nil _ hp, ← isAbsolute]
  · rw [isAbsolute, htext, List.head?_append_of_ne_nil _ hp, ← isAbsolute]

/-- A name that is joined to a path is its last piece.  It takes the place of the empty piece that
a slash at the end leaves. -/
theorem exists_body_join (h : IsEntryName name) (hp : p.text.toList ≠ []) :
    ∃ init, (p.join ⟨name⟩).body = init ++ [name.toList] ∧
      (p.body = init ++ [[]] ∨ p.body = init) ∧ (p.isAbsolute = false → init ≠ []) := by
  have hbehind (front : List Char) :
      pieces (front ++ '/' :: name.toList) = pieces front ++ [name.toList] := by
    rw [pieces_append_slash, pieces_of_not_mem h.2.1]
  have hslash (front : List Char) : pieces (front ++ ['/']) = pieces front ++ [[]] :=
    pieces_append_slash front []
  unfold body
  rw [isAbsolute_join h hp]
  cases habsolute : p.isAbsolute with
  | true =>
      rw [isAbsolute, beq_iff_eq] at habsolute
      obtain ⟨cs, hcs⟩ := List.head?_eq_some_iff.mp habsolute
      rcases toList_join h hp with ⟨htext, hlast⟩ | ⟨htext, -⟩
      · rw [htext, hcs]
        rcases List.eq_nil_or_concat' cs with rfl | ⟨front, c, rfl⟩
        · exact ⟨[], pieces_of_not_mem h.2.1, .inl rfl, Bool.noConfusion⟩
        · have hc : c = '/' := by
            rw [hcs, ← List.cons_append, List.getLast?_concat] at hlast
            exact Option.some.inj hlast
          subst hc
          refine ⟨pieces front, ?_, .inl (hslash front), Bool.noConfusion⟩
          simpa using hbehind front
      · rw [htext, hcs]
        exact ⟨pieces cs, hbehind cs, .inr rfl, Bool.noConfusion⟩
  | false =>
      rcases toList_join h hp with ⟨htext, hlast⟩ | ⟨htext, -⟩
      · obtain ⟨front, hfront⟩ := List.getLast?_eq_some_iff.mp hlast
        rw [htext, hfront]
        refine ⟨pieces front, ?_, .inl (hslash front), fun _ => pieces_ne_nil front⟩
        simpa using hbehind front
      · rw [htext]
        exact ⟨pieces p.text.toList, hbehind _, .inr rfl, fun _ => pieces_ne_nil _⟩

theorem exists_steps_join (h : IsEntryName name) (hp : p.text.toList ≠ []) :
    ∃ init tail, (tail = [] ∨ tail = [.here]) ∧ p.steps = init ++ tail ∧
      (p.join ⟨name⟩).steps = init ++ [.name name] := by
  obtain ⟨init, hjoin, hbody, -⟩ := exists_body_join h hp
  have hname : pieceSteps (init ++ [name.toList]) =
      (init.filter (!·.isEmpty)).map step ++ [.name name] := by
    rw [pieceSteps_append _ (List.cons_ne_nil _ _)]
    exact congrArg _ (congrArg (fun c => [c]) (step_of_isEntryName h))
  have hempty (front : List (List Char)) :
      pieceSteps (front ++ [[]]) = (front.filter (!·.isEmpty)).map step ++ [.here] :=
    pieceSteps_append front (List.cons_ne_nil _ _)
  rw [steps_eq, steps_eq, hjoin, isAbsolute_join h hp, hname, ← List.append_assoc]
  rcases hbody with hbody | hbody
  · refine ⟨_, [.here], .inr rfl, ?_, rfl⟩
    rw [hbody, hempty, List.append_assoc]
  · rcases List.eq_nil_or_concat' init with rfl | ⟨front, piece, rfl⟩
    · exact absurd hbody (pieces_ne_nil _)
    · by_cases hpiece : piece = []
      · refine ⟨_, [.here], .inr rfl, ?_, rfl⟩
        rw [hbody, hpiece, hempty, List.append_assoc, List.filter_append]
        simp
      · refine ⟨_, [], .inl rfl, ?_, rfl⟩
        rw [hbody, pieceSteps_concat _ hpiece, List.append_nil]

/-! ## Components -/

theorem text_join_ne_nil (h : IsEntryName name) (hp : p.text.toList ≠ []) :
    (p.join ⟨name⟩).text.toList ≠ [] := by
  rcases toList_join h hp with ⟨htext, -⟩ | ⟨htext, -⟩ <;> simp [htext, hp]

theorem components_join (h : IsEntryName name) (hp : p.text.toList ≠ []) :
    (p.join ⟨name⟩).components = p.components ++ [.name name] := by
  obtain ⟨init, hjoin, hbody, hrelative⟩ := exists_body_join h hp
  have hinner : (p.join ⟨name⟩).body.filterMap component? =
      p.body.filterMap component? ++ [.name name] := by
    rw [hjoin, List.filterMap_append, List.filterMap_cons, component?_of_isEntryName h]
    rcases hbody with hbody | hbody
    · rw [hbody, List.filterMap_append]
      simp [component?, isIdle]
    · rw [hbody]
      rfl
  unfold components
  dsimp only
  rw [hinner, isAbsolute_join h hp]
  cases habsolute : p.isAbsolute with
  | true => rfl
  | false =>
      have hhead : (p.join ⟨name⟩).body.head? = p.body.head? := by
        have hinit := hrelative habsolute
        rw [hjoin, List.head?_append_of_ne_nil _ hinit]
        rcases hbody with hbody | hbody
        · rw [hbody, List.head?_append_of_ne_nil _ hinit]
        · rw [hbody]
      rw [hhead]
      split
      · contradiction
      · split <;> rfl

theorem fileName_of_steps {init : List Component} (h : p.steps = init ++ [.name name]) :
    p.fileName = some name := by
  obtain ⟨front, last, hbody⟩ : ∃ front last, p.body = front ++ [last] := by
    rcases List.eq_nil_or_concat' p.body with hbody | hbody
    · exact absurd hbody (pieces_ne_nil _)
    · exact hbody
  have hlast : step last = .name name := by
    rw [steps_eq, hbody, pieceSteps_append _ (List.cons_ne_nil _ _), ← List.append_assoc] at h
    exact List.singleton_inj.mp (List.append_inj_right' h rfl)
  have hcomponent : component? last = some (.name name) := by
    unfold step at hlast
    unfold component? isIdle
    split_ifs at hlast ⊢
    rw [hlast]
  have hinner (first : List Component) :
      (first ++ p.body.filterMap component?).getLast? = some (.name name) := by
    rw [hbody, List.filterMap_append, ← List.append_assoc]
    simp [hcomponent]
  unfold fileName components
  dsimp only
  split_ifs
  · rw [show Component.root :: p.body.filterMap component? = [.root] ++ _ from rfl, hinner]
  · rw [show Component.here :: p.body.filterMap component? = [.here] ++ _ from rfl, hinner]
  · rw [← List.nil_append (p.body.filterMap component?), hinner]

end

section

variable {p : Path} {names names' : List String}

theorem components_descend (h : ∀ name ∈ names, IsEntryName name) (hp : p.text.toList ≠ []) :
    (p.descend names).components = p.components ++ names.map .name := by
  induction names generalizing p with
  | nil => simp
  | cons name names ih =>
      obtain ⟨hname, hnames⟩ := List.forall_mem_cons.mp h
      rw [descend_cons, ih hnames (text_join_ne_nil hname hp), components_join hname hp]
      simp

theorem eq_of_descend_eq (h : ∀ name ∈ names, IsEntryName name)
    (h' : ∀ name ∈ names', IsEntryName name) (hp : p.text.toList ≠ [])
    (heq : p.descend names = p.descend names') : names = names' := by
  have hcomponents := congrArg components heq
  rw [components_descend h hp, components_descend h' hp] at hcomponents
  exact List.map_injective_iff.mpr (fun _ _ => Component.name.inj)
    (List.append_cancel_left hcomponents)

/-! ## What is below a path, seen from it -/

theorem componentsAfter_append (bs cs : List Component) :
    componentsAfter bs (bs ++ cs) = some cs := by
  induction bs with
  | nil => rfl
  | cons b bs ih => rw [List.cons_append, componentsAfter, if_pos (beq_self_eq_true b), ih]

theorem exists_body_descend (h : ∀ name ∈ names, IsEntryName name) (hne : names ≠ [])
    (hp : p.text.toList ≠ []) :
    ∃ init, (p.descend names).body = init ++ names.map String.toList ∧
      (p.body = init ++ [[]] ∨ p.body = init) := by
  induction names generalizing p with
  | nil => exact absurd rfl hne
  | cons name names ih =>
      obtain ⟨hname, hnames⟩ := List.forall_mem_cons.mp h
      obtain ⟨init, hjoin, hbody, -⟩ := exists_body_join hname hp
      refine ⟨init, ?_, hbody⟩
      rw [descend_cons]
      by_cases hlast : names = []
      · subst hlast
        exact hjoin
      · obtain ⟨init', hdescend, hinit⟩ := ih hnames hlast (text_join_ne_nil hname hp)
        -- the joined path does not end with a slash, so nothing of it is replaced
        have hinit' : init' = init ++ [name.toList] := by
          rcases hinit with hinit | hinit
          · rw [hjoin] at hinit
            exact absurd (List.singleton_inj.mp (List.append_inj_right' hinit rfl)) hname.1
          · rw [← hinit, hjoin]
        rw [hdescend, hinit', List.append_assoc]
        rfl

theorem countP_components (p : Path) :
    p.components.countP (fun c => c != .root && c != .here) = p.body.countP (!isIdle ·) := by
  have hinner : (p.body.filterMap component?).countP (fun c => c != .root && c != .here) =
      p.body.countP (!isIdle ·) := by
    rw [List.countP_filterMap]
    refine List.countP_congr fun piece _ => ?_
    unfold component?
    split
    · simp_all
    · split <;> simp_all
  unfold components
  dsimp only
  split
  · rw [← hinner]
    rfl
  · split
    · rw [← hinner]
      rfl
    · exact hinner

theorem dropComponents_append (init rest : List (List Char)) :
    dropComponents (init.countP (!isIdle ·)) (init ++ rest) = rest.dropWhile isIdle := by
  induction init with
  | nil => rw [List.countP_nil, List.nil_append, dropComponents]
  | cons piece init ih =>
      rw [List.cons_append]
      cases hidle : isIdle piece with
      | true =>
          rw [List.countP_cons_of_neg (by simp [hidle]), ← ih]
          cases init.countP (!isIdle ·) with
          | zero => rw [dropComponents, dropComponents, List.dropWhile_cons_of_pos hidle]
          | succ n => rw [dropComponents, if_pos hidle]
      | false =>
          rw [List.countP_cons_of_pos (by simp [hidle]), dropComponents,
            if_neg (by simp [hidle]), ih]

theorem relativeTo_self (p : Path) : p.relativeTo p = some ⟨""⟩ := by
  have hself := componentsAfter_append p.components []
  rw [List.append_nil] at hself
  have hdrop := dropComponents_append p.body []
  rw [List.append_nil] at hdrop
  rw [relativeTo, hself, Option.map_some, countP_components]
  dsimp only
  rw [hdrop]
  rfl

theorem relativeTo_descend (h : ∀ name ∈ names, IsEntryName name) (hne : names ≠ [])
    (hp : p.text.toList ≠ []) :
    (p.descend names).relativeTo p = some ⟨"/".intercalate names⟩ := by
  obtain ⟨init, hdescend, hbody⟩ := exists_body_descend h hne hp
  have hbusy : ∀ piece ∈ names.map String.toList, isIdle piece = false :=
    List.forall_mem_map.mpr fun name hname => isIdle_of_isEntryName (h name hname)
  have hcount : p.body.countP (!isIdle ·) = init.countP (!isIdle ·) := by
    rcases hbody with hbody | hbody
    · rw [hbody, List.countP_append]
      rfl
    · rw [hbody]
  have hfront : (names.map String.toList).dropWhile isIdle = names.map String.toList := by
    cases names with
    | nil => rfl
    | cons name names =>
        rw [List.map_cons]
        exact List.dropWhile_cons_of_neg (by simp [hbusy name.toList List.mem_cons_self])
  have hend : dropIdleEnd (names.map String.toList) = names.map String.toList :=
    List.rdropWhile_eq_self_iff.mpr fun hl =>
      Bool.eq_false_iff.mp (hbusy _ (List.getLast_mem hl))
  rw [relativeTo, components_descend h hp, componentsAfter_append, Option.map_some,
    countP_components, hcount, hdescend]
  dsimp only
  rw [dropComponents_append, hfront, hend, joinPieces_eq_intercalate]
  congr 2
  rw [← String.toList_inj, String.toList_ofList, String.toList_intercalate]
  rfl

end

end Path

end Preprocessor
