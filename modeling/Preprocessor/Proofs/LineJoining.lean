/-
Texts that are put together from lines.

What is written for a line is a text in which no line ends, and an end, which may be missing.  Such
pieces put together are a text with lines of its own.  These are the pieces, but for two things: a
piece without an end runs on into the next one, and a carriage return and a line feed that come to
stand side by side are one end.  So the texts are kept, in their order, if and only if none of them
runs on into another, and their numbers are kept as well if and only if no two ends become one
before a text.
-/
import Preprocessor.Proofs.LineSplitting

namespace Preprocessor

namespace Text

/-- Whether no line ends inside a text. -/
def unbroken (cs : List Char) : Bool :=
  cs.all fun c => c != '\n' && c != '\r'

/-- What a line may end with; nothing, if it is the last one. -/
def ends : List String :=
  ["\n", "\r\n", "\r", ""]

theorem unbroken_append {cs ds : List Char} :
    unbroken (cs ++ ds) = true ↔ unbroken cs = true ∧ unbroken ds = true := by
  rw [unbroken, List.all_append, Bool.and_eq_true]
  rfl

theorem unbroken_cons {c : Char} {cs : List Char} (h : unbroken (c :: cs) = true) :
    c ≠ '\n' ∧ c ≠ '\r' ∧ unbroken cs = true := by
  simp only [unbroken, List.all_cons, Bool.and_eq_true, bne_iff_ne] at h
  exact ⟨h.1.1, h.1.2, h.2⟩

end Text

/-- A line, or a text without an end, which may be empty. -/
structure Line.IsPiece (l : Line) : Prop where
  unbroken : Text.unbroken l.content.toList = true
  terminator : l.terminator ∈ Text.ends

namespace Text

/-! ## The lines of a text are pieces -/

theorem isPiece_of_mem_linesFrom {done : List Line} {current cs : List Char}
    (hdone : ∀ l ∈ done, l.IsPiece) (hcurrent : unbroken current = true) :
    ∀ l ∈ linesFrom done current cs, l.IsPiece := by
  have hline {current : List Char} {t : String} (h : unbroken current = true) (ht : t ∈ ends) :
      Line.IsPiece ⟨String.ofList current.reverse, t⟩ := by
    refine ⟨?_, ht⟩
    rw [String.toList_ofList, unbroken, List.all_reverse]
    exact h
  have hcons {done : List Line} {current : List Char} {t : String}
      (h : ∀ l ∈ done, l.IsPiece) (hcurrent : unbroken current = true) (ht : t ∈ ends) :
      ∀ l ∈ ⟨String.ofList current.reverse, t⟩ :: done, l.IsPiece :=
    List.forall_mem_cons.mpr ⟨hline hcurrent ht, h⟩
  fun_induction linesFrom done current cs with
  | case1 done current _ => simpa using hdone
  | case2 done current _ =>
      simp only [List.mem_reverse]
      exact hcons hdone hcurrent (by decide)
  | case3 done current rest ih => exact ih (hcons hdone hcurrent (by decide)) rfl
  | case4 done current rest ih => exact ih (hcons hdone hcurrent (by decide)) rfl
  | case5 done current rest _ ih => exact ih (hcons hdone hcurrent (by decide)) rfl
  | case6 done current c rest hfeed _ hreturn ih =>
      refine ih hdone ?_
      rw [unbroken, List.all_cons, Bool.and_eq_true, Bool.and_eq_true, bne_iff_ne, bne_iff_ne]
      exact ⟨⟨hfeed, hreturn⟩, hcurrent⟩

theorem isPiece_of_mem_lines {s : String} {l : Line} (h : l ∈ lines s) : l.IsPiece :=
  isPiece_of_mem_linesFrom (fun _ hnone => absurd hnone List.not_mem_nil) rfl l h

theorem terminator_ne_of_mem_dropLast_linesFrom {done : List Line} {current cs : List Char}
    (hdone : ∀ l ∈ done, l.terminator ≠ "") :
    ∀ l ∈ (linesFrom done current cs).dropLast, l.terminator ≠ "" := by
  fun_induction linesFrom done current cs with
  | case1 done current _ =>
      intro l hl
      exact hdone l (List.mem_reverse.mp (List.dropLast_subset _ hl))
  | case2 done current _ =>
      intro l hl
      rw [List.reverse_cons, List.dropLast_concat] at hl
      exact hdone l (List.mem_reverse.mp hl)
  | case3 done current rest ih => exact ih (List.forall_mem_cons.mpr ⟨by simp, hdone⟩)
  | case4 done current rest ih => exact ih (List.forall_mem_cons.mpr ⟨by simp, hdone⟩)
  | case5 done current rest _ ih => exact ih (List.forall_mem_cons.mpr ⟨by simp, hdone⟩)
  | case6 done current c rest _ _ _ ih => exact ih hdone

/-- Only the last line of a text can be without an end. -/
theorem terminator_ne_of_mem_dropLast {s : String} {l : Line} (h : l ∈ (lines s).dropLast) :
    l.terminator ≠ "" :=
  terminator_ne_of_mem_dropLast_linesFrom (fun _ hnone => absurd hnone List.not_mem_nil) l h

/-! ## A piece in front of lines -/

/-- The lines of a text with a piece put in front of it: a piece without an end runs on into the
first line, and a carriage return takes the line feed that follows it. -/
def attach (l : Line) (ls : List Line) : List Line :=
  if l.terminator = "" then
    match ls with
    | [] => if l.content = "" then [] else [l]
    | m :: rest => ⟨l.content ++ m.content, m.terminator⟩ :: rest
  else if l.terminator = "\r" ∧ ls.head? = some ⟨"", "\n"⟩ then ⟨l.content, "\r\n"⟩ :: ls.tail
  else l :: ls

section

variable {l m : Line} {ls : List Line}

theorem attach_cons_of_unended (h : l.terminator = "") :
    attach l (m :: ls) = ⟨l.content ++ m.content, m.terminator⟩ :: ls := by
  unfold attach
  rw [if_pos h]

theorem attach_of_merging (h : l.terminator = "\r") (hfeed : ls.head? = some ⟨"", "\n"⟩) :
    attach l ls = ⟨l.content, "\r\n"⟩ :: ls.tail := by
  unfold attach
  rw [if_neg (by rw [h]; simp), if_pos ⟨h, hfeed⟩]

theorem attach_of_ended (h : l.terminator ≠ "")
    (hmerging : ¬(l.terminator = "\r" ∧ ls.head? = some ⟨"", "\n"⟩)) : attach l ls = l :: ls := by
  unfold attach
  rw [if_neg h, if_neg hmerging]

theorem attach_nil : attach l [] = if l = ⟨"", ""⟩ then [] else [l] := by
  rcases l with ⟨content, t⟩
  by_cases ht : t = ""
  · subst ht
    by_cases hcontent : content = ""
    · subst hcontent
      rfl
    · simp [attach, hcontent]
  · rw [attach_of_ended ht (fun hboth => by cases hboth.2), if_neg]
    exact fun heq => ht (congrArg Line.terminator heq)

end

theorem linesFrom_of_unbroken {cs : List Char} (h : unbroken cs = true) (done : List Line)
    (current ds : List Char) :
    linesFrom done current (cs ++ ds) = linesFrom done (cs.reverse ++ current) ds := by
  induction cs generalizing current with
  | nil => rfl
  | cons c cs ih =>
      obtain ⟨hfeed, hreturn, hcs⟩ := unbroken_cons h
      rw [List.cons_append, linesFrom, ih hcs, List.reverse_cons, List.append_assoc]
      · rfl
      · exact hfeed
      · exact fun _ hc _ => hreturn hc
      · exact hreturn

theorem linesFrom_singleton (l : Line) (cs : List Char) :
    linesFrom [l] [] cs = l :: linesFrom [] [] cs :=
  linesFrom_append [] [l] [] cs

/-- Whether a character is the end of a line, or begins one. -/
def isEnd (c : Char) : Bool :=
  c == '\n' || c == '\r'

theorem linesFrom_cases (cs : List Char) :
    cs = [] ∨
    (∃ t c more rest, cs = c :: more ∧ isEnd c = true ∧ ∀ current, linesFrom [] current cs =
      ⟨String.ofList current.reverse, t⟩ :: linesFrom [] [] rest) ∨
    ∃ c rest, cs = c :: rest ∧ isEnd c = false ∧
      ∀ current, linesFrom [] current cs = linesFrom [] (c :: current) rest := by
  cases cs with
  | nil => exact .inl rfl
  | cons c cs =>
      by_cases hfeed : c = '\n'
      · subst hfeed
        exact .inr (.inl ⟨"\n", _, _, cs, rfl, rfl, fun _ => linesFrom_singleton _ _⟩)
      · by_cases hreturn : c = '\r'
        · subst hreturn
          by_cases hnext : ∃ rest, cs = '\n' :: rest
          · obtain ⟨rest, rfl⟩ := hnext
            exact .inr (.inl ⟨"\r\n", _, _, rest, rfl, rfl, fun _ => linesFrom_singleton _ _⟩)
          · refine .inr (.inl ⟨"\r", _, _, cs, rfl, rfl, fun current => ?_⟩)
            rw [linesFrom, linesFrom_singleton]
            exact fun rest h => hnext ⟨rest, h⟩
        · refine .inr (.inr ⟨c, cs, rfl, by simp [isEnd, hfeed, hreturn], fun current => ?_⟩)
          rw [linesFrom]
          · exact hfeed
          · exact fun _ hc _ => hreturn hc
          · exact hreturn

theorem linesFrom_current (before current cs : List Char) :
    linesFrom [] (current ++ before) cs =
      attach ⟨String.ofList before.reverse, ""⟩ (linesFrom [] current cs) := by
  induction cs generalizing current with
  | nil =>
      cases current with
      | nil =>
          cases before with
          | nil => rfl
          | cons c before => simp [linesFrom, attach]
      | cons c current => simp [linesFrom, attach, String.ofList_append]
  | cons c cs ih =>
      rcases linesFrom_cases (c :: cs) with
        hnil | ⟨t, d, more, rest, -, -, hended⟩ | ⟨d, rest, heq, -, hread⟩
      · cases hnil
      · rw [hended, hended, List.reverse_append, String.ofList_append]
        rfl
      · cases heq
        rw [hread, hread]
        exact ih (c :: current)

theorem head?_lines_eq_feed {s : String} :
    (lines s).head? = some ⟨"", "\n"⟩ ↔ s.toList.head? = some '\n' := by
  constructor
  · intro h
    obtain ⟨rest, hlines⟩ := List.head?_eq_some_iff.mp h
    have hs := join_lines s
    rw [hlines, join_cons] at hs
    rw [← hs]
    simp [Line.text]
  · intro h
    obtain ⟨rest, hs⟩ := List.head?_eq_some_iff.mp h
    rw [lines, hs, linesFrom, linesFrom_singleton]
    rfl

theorem lines_text_append {l : Line} (h : l.IsPiece) (s : String) :
    lines (l.text ++ s) = attach l (lines s) := by
  rcases l with ⟨content, t⟩
  have hread : lines (Line.text ⟨content, t⟩ ++ s) =
      linesFrom [] content.toList.reverse (t.toList ++ s.toList) := by
    rw [lines, Line.text, String.toList_append, String.toList_append, List.append_assoc,
      linesFrom_of_unbroken h.unbroken, List.append_nil]
  have hcontent : String.ofList content.toList.reverse.reverse = content := by
    rw [List.reverse_reverse, String.ofList_toList]
  have hends := h.terminator
  simp only [ends, List.mem_cons, List.not_mem_nil, or_false] at hends
  rw [hread]
  rcases hends with rfl | rfl | rfl | rfl
  · show linesFrom [⟨_, _⟩] [] s.toList = _
    rw [linesFrom_singleton, hcontent]
    rfl
  · show linesFrom [⟨_, _⟩] [] s.toList = _
    rw [linesFrom_singleton, hcontent]
    rfl
  · by_cases hfeed : s.toList.head? = some '\n'
    · obtain ⟨rest, hs⟩ := List.head?_eq_some_iff.mp hfeed
      have hlines : lines s = ⟨"", "\n"⟩ :: linesFrom [] [] rest := by
        rw [lines, hs, linesFrom, linesFrom_singleton]
        rfl
      rw [hs, hlines]
      show linesFrom [⟨_, _⟩] [] rest = _
      rw [linesFrom_singleton, hcontent]
      rfl
    · have hrest : ∀ rest, s.toList = '\n' :: rest → False := by
        intro rest hs
        exact hfeed (by rw [hs]; rfl)
      have hhead : ¬(lines s).head? = some ⟨"", "\n"⟩ := fun hhead =>
        hfeed (head?_lines_eq_feed.mp hhead)
      show linesFrom [] _ ('\r' :: s.toList) = _
      rw [linesFrom, linesFrom_singleton, hcontent, attach_of_ended (by simp)]
      · rfl
      · exact fun hboth => hhead hboth.2
      · exact hrest
  · have hcurrent := linesFrom_current content.toList.reverse [] s.toList
    rwa [hcontent] at hcurrent

/-! ## The texts that are kept -/

/-- The contents of the lines that are not empty. -/
def contents (ls : List Line) : List String :=
  (ls.map Line.content).filter (· != "")

/-- Whether a text is empty or begins with the end of a line. -/
def beginsWithEnd (s : String) : Bool :=
  s.toList.head?.all isEnd

/-- Whether some text runs on into another: it has no end, and neither an end nor nothing follows
it. -/
def runsOn : List Line → Bool
  | [] => false
  | l :: rest => l.content != "" && l.terminator == "" && !beginsWithEnd (join rest) || runsOn rest

theorem contents_cons (l : Line) (ls : List Line) :
    contents (l :: ls) = (if l.content = "" then [] else [l.content]) ++ contents ls := by
  by_cases h : l.content = ""
  · simp [contents, h]
  · simp [contents, h]

/-- Only a text without an end in front of another text makes one text of two. -/
theorem contents_attach {l : Line} {ls : List Line}
    (h : l.content = "" ∨ l.terminator ≠ "" ∨ ls.head?.all (·.content == "") = true) :
    contents (attach l ls) = contents (l :: ls) := by
  by_cases ht : l.terminator = ""
  · cases ls with
    | nil =>
        rw [attach_nil]
        split
        · rename_i hl
          rw [hl]
          rfl
        · rfl
    | cons m ls =>
        rw [attach_cons_of_unended ht, contents_cons, contents_cons l, contents_cons m]
        rcases h with h | h | h
        · simp [h]
        · exact absurd ht h
        · have hm : m.content = "" := by simpa using h
          simp [hm]
  · by_cases hmerging : l.terminator = "\r" ∧ ls.head? = some ⟨"", "\n"⟩
    · obtain ⟨rest, rfl⟩ := List.head?_eq_some_iff.mp hmerging.2
      rw [attach_of_merging hmerging.1 hmerging.2, contents_cons, contents_cons, contents_cons]
      rfl
    · rw [attach_of_ended ht hmerging]

theorem length_contents_attach_lt {l m : Line} {ls : List Line} (hl : l.content ≠ "")
    (ht : l.terminator = "") (hm : m.content ≠ "") :
    (contents (attach l (m :: ls))).length < (contents (l :: m :: ls)).length := by
  have hboth : l.content ++ m.content ≠ "" := by simp [hl]
  rw [attach_cons_of_unended ht, contents_cons, contents_cons l, contents_cons m, if_neg hl,
    if_neg hm, if_neg hboth]
  simp

theorem length_contents_attach_le (l : Line) (ls : List Line) :
    (contents (attach l ls)).length ≤ (contents (l :: ls)).length := by
  by_cases h : l.content = "" ∨ l.terminator ≠ "" ∨ ls.head?.all (·.content == "") = true
  · exact Nat.le_of_eq (congrArg List.length (contents_attach h))
  · simp only [not_or, not_not] at h
    obtain ⟨hl, ht, hhead⟩ := h
    cases ls with
    | nil => exact absurd rfl hhead
    | cons m ls =>
        have hm : m.content ≠ "" := by simpa using hhead
        exact Nat.le_of_lt (length_contents_attach_lt hl ht hm)

theorem all_head?_lines (s : String) :
    (lines s).head?.all (·.content == "") = beginsWithEnd s := by
  rw [lines, beginsWithEnd]
  rcases linesFrom_cases s.toList with
    hnil | ⟨t, c, more, rest, hs, hc, hended⟩ | ⟨c, rest, hs, hc, hread⟩
  · rw [hnil]
    rfl
  · rw [hended, hs, List.head?_cons, List.head?_cons, Option.all_some, Option.all_some, hc]
    rfl
  · have hcurrent : linesFrom [] [c] rest =
        attach ⟨String.ofList [c], ""⟩ (linesFrom [] [] rest) := linesFrom_current [c] [] rest
    rw [hread, hcurrent, hs, List.head?_cons, Option.all_some, hc]
    cases linesFrom [] [] rest with
    | nil => simp [attach]
    | cons m ls => simp [attach]

section

variable {ls : List Line} (h : ∀ l ∈ ls, l.IsPiece)

include h

theorem contents_lines_of_not_runsOn (hruns : runsOn ls = false) :
    contents (lines (join ls)) = contents ls := by
  induction ls with
  | nil => rfl
  | cons l ls ih =>
      obtain ⟨hl, hls⟩ := List.forall_mem_cons.mp h
      rw [runsOn, Bool.or_eq_false_iff] at hruns
      have hkept : l.content = "" ∨ l.terminator ≠ "" ∨
          (lines (join ls)).head?.all (·.content == "") = true := by
        rw [all_head?_lines]
        by_cases hcontent : l.content = ""
        · exact .inl hcontent
        · by_cases ht : l.terminator = ""
          · exact .inr (.inr (by simpa [hcontent, ht] using hruns.1))
          · exact .inr (.inl ht)
      rw [join_cons, lines_text_append hl, contents_attach hkept, contents_cons, contents_cons,
        ih hls hruns.2]

theorem length_contents_lines_le :
    (contents (lines (join ls))).length ≤ (contents ls).length := by
  induction ls with
  | nil => exact Nat.le_refl _
  | cons l ls ih =>
      obtain ⟨hl, hls⟩ := List.forall_mem_cons.mp h
      rw [join_cons, lines_text_append hl]
      refine Nat.le_trans (length_contents_attach_le l _) ?_
      rw [contents_cons, contents_cons, List.length_append, List.length_append]
      exact Nat.add_le_add_left (ih hls) _

theorem length_contents_lines_lt (hruns : runsOn ls = true) :
    (contents (lines (join ls))).length < (contents ls).length := by
  induction ls with
  | nil => cases hruns
  | cons l ls ih =>
      obtain ⟨hl, hls⟩ := List.forall_mem_cons.mp h
      have hrest : (contents (l :: lines (join ls))).length ≤ (contents (l :: ls)).length := by
        rw [contents_cons, contents_cons, List.length_append, List.length_append]
        exact Nat.add_le_add_left (length_contents_lines_le hls) _
      rw [join_cons, lines_text_append hl]
      rw [runsOn, Bool.or_eq_true] at hruns
      rcases hruns with hhere | hlater
      · simp only [Bool.and_eq_true, bne_iff_ne, beq_iff_eq, Bool.not_eq_true'] at hhere
        obtain ⟨⟨hcontent, ht⟩, hbegins⟩ := hhere
        rw [← all_head?_lines] at hbegins
        refine Nat.lt_of_lt_of_le ?_ hrest
        cases hlines : lines (join ls) with
        | nil =>
            rw [hlines] at hbegins
            cases hbegins
        | cons m ms =>
            rw [hlines] at hbegins
            exact length_contents_attach_lt hcontent ht (by simpa using hbegins)
      · refine Nat.lt_of_le_of_lt (length_contents_attach_le l _) ?_
        rw [contents_cons, contents_cons, List.length_append, List.length_append]
        exact Nat.add_lt_add_left (ih hls hlater) _

/-- Pieces that are put together keep their texts if and only if none of them runs on. -/
theorem contents_lines_eq_iff :
    contents (lines (join ls)) = contents ls ↔ runsOn ls = false := by
  constructor
  · intro hkept
    cases hruns : runsOn ls with
    | false => rfl
    | true =>
        exact absurd (congrArg List.length hkept) (Nat.ne_of_lt (length_contents_lines_lt h hruns))
  · exact contents_lines_of_not_runsOn h

end

/-! ## The numbers of the lines -/

/-- Whether an end is split between two pieces in front of some text, so that two ends are one
there. -/
def mergesEnds : List Line → Bool
  | [] => false
  | l :: rest =>
    splitsEnd l.text.toList (join rest).toList && !(contents rest).isEmpty || mergesEnds rest

/-- Whether the texts are at the numbers that they have as pieces. -/
def KeepsNumbers (ls : List Line) : Prop :=
  ∀ (k : Nat) (l : Line), ls[k]? = some l → l.content ≠ "" →
    (lines (join ls))[k]?.map Line.content = some l.content

theorem contents_eq_nil_iff {ls : List Line} :
    contents ls = [] ↔ ∀ l ∈ ls, l.content = "" := by
  simp [contents, List.filter_eq_nil_iff]

theorem mergesEnds_of_contents_nil {ls : List Line} (h : contents ls = []) :
    mergesEnds ls = false := by
  induction ls with
  | nil => rfl
  | cons l ls ih =>
      rw [contents_cons] at h
      have hrest : contents ls = [] := (List.append_eq_nil_iff.mp h).2
      rw [mergesEnds, hrest, ih hrest]
      simp

/-- A piece with an end in front of a text splits an end exactly if it ends with a carriage return
and a line feed follows. -/
theorem splitsEnd_text_iff {l : Line} (h : l.IsPiece) (ht : l.terminator ≠ "") (s : String) :
    splitsEnd l.text.toList s.toList = true ↔
      l.terminator = "\r" ∧ (lines s).head? = some ⟨"", "\n"⟩ := by
  rw [head?_lines_eq_feed, splitsEnd, Bool.and_eq_true, beq_iff_eq, beq_iff_eq]
  refine and_congr_left fun _ => ?_
  have hends := h.terminator
  simp only [ends, List.mem_cons, List.not_mem_nil, or_false] at hends
  rw [Line.text, String.toList_append]
  rcases hends with hl | hl | hl | hl
  · simp [hl]
  · simp [hl]
  · simp [hl]
  · exact absurd hl ht

/-- An ended piece in front of a text is a line of its own, and takes at most the end of the first
line away. -/
theorem lines_text_append_of_ended {l : Line} (h : l.IsPiece) (ht : l.terminator ≠ "")
    (s : String) :
    ∃ t, lines (l.text ++ s) = ⟨l.content, t⟩ ::
      if splitsEnd l.text.toList s.toList then (lines s).tail else lines s := by
  rw [lines_text_append h]
  by_cases hsplit : splitsEnd l.text.toList s.toList = true
  · obtain ⟨hreturn, hfeed⟩ := (splitsEnd_text_iff h ht s).mp hsplit
    exact ⟨"\r\n", by rw [if_pos hsplit, attach_of_merging hreturn hfeed]⟩
  · have hmerging := mt (splitsEnd_text_iff h ht s).mpr hsplit
    exact ⟨l.terminator, by rw [if_neg hsplit, attach_of_ended ht hmerging]⟩

theorem lines_join_singleton {l : Line} (h : l.IsPiece) :
    lines (join [l]) = if l = ⟨"", ""⟩ then [] else [l] := by
  rw [join_cons, lines_text_append h, ← attach_nil]
  rfl

section

variable {ls : List Line}

theorem exists_piece_of_line (h : ∀ l ∈ ls, l.IsPiece)
    (hended : ∀ l ∈ ls.dropLast, l.terminator ≠ "") {j : Nat} {m : Line}
    (hm : (lines (join ls))[j]? = some m) :
    ∃ i l, j ≤ i ∧ ls[i]? = some l ∧ l.content = m.content := by
  induction ls generalizing j m with
  | nil => cases hm
  | cons l ls ih =>
      obtain ⟨hl, hls⟩ := List.forall_mem_cons.mp h
      cases ls with
      | nil =>
          rw [lines_join_singleton hl] at hm
          split at hm
          · cases hm
          · cases j with
            | zero =>
                cases hm
                exact ⟨0, l, Nat.le_refl _, rfl, rfl⟩
            | succ j => cases hm
      | cons l' ls =>
          rw [List.dropLast_cons_cons] at hended
          obtain ⟨ht, hended⟩ := List.forall_mem_cons.mp hended
          obtain ⟨t, hlines⟩ := lines_text_append_of_ended hl ht (join (l' :: ls))
          rw [join_cons, hlines] at hm
          cases j with
          | zero =>
              cases hm
              exact ⟨0, l, Nat.le_refl _, rfl, rfl⟩
          | succ j =>
              rw [List.getElem?_cons_succ] at hm
              split at hm
              · rw [List.getElem?_tail] at hm
                obtain ⟨i, l₁, hi, hl₁, hcontent⟩ := ih hls hended hm
                exact ⟨i + 1, l₁, by omega, hl₁, hcontent⟩
              · obtain ⟨i, l₁, hi, hl₁, hcontent⟩ := ih hls hended hm
                exact ⟨i + 1, l₁, by omega, hl₁, hcontent⟩

/-- Pieces keep their numbers where the ends before them do, and never behind two ends that are
one. -/
theorem keepsNumbers_cons {l l' : Line} (h : ∀ m ∈ l :: l' :: ls, m.IsPiece)
    (hended : ∀ m ∈ (l :: l' :: ls).dropLast, m.terminator ≠ "") :
    KeepsNumbers (l :: l' :: ls) ↔
      if splitsEnd l.text.toList (join (l' :: ls)).toList then contents (l' :: ls) = []
      else KeepsNumbers (l' :: ls) := by
  obtain ⟨hl, hls⟩ := List.forall_mem_cons.mp h
  rw [List.dropLast_cons_cons] at hended
  obtain ⟨ht, hended⟩ := List.forall_mem_cons.mp hended
  obtain ⟨t, hlines⟩ := lines_text_append_of_ended hl ht (join (l' :: ls))
  have hkeeps : KeepsNumbers (l :: l' :: ls) ↔ ∀ (k : Nat) (m : Line), (l' :: ls)[k]? = some m →
      m.content ≠ "" →
      (if splitsEnd l.text.toList (join (l' :: ls)).toList then (lines (join (l' :: ls))).tail
        else lines (join (l' :: ls)))[k]?.map Line.content = some m.content := by
    rw [KeepsNumbers, join_cons, hlines]
    constructor
    · intro hall k m hm hcontent
      exact hall (k + 1) m hm hcontent
    · intro hall k m hm hcontent
      cases k with
      | zero =>
          cases hm
          rfl
      | succ k => exact hall k m hm hcontent
  rw [hkeeps]
  split
  · rw [contents_eq_nil_iff]
    constructor
    · -- a text that is not at its number is taken for one at a later number, so there is no last
      intro hall
      have hnone : ∀ (n k : Nat) (m : Line), (l' :: ls).length ≤ n + k → (l' :: ls)[k]? = some m →
          m.content = "" := by
        intro n
        induction n with
        | zero =>
            intro k m hk hm
            rw [List.getElem?_eq_none (by omega)] at hm
            cases hm
        | succ n ih =>
            intro k m hk hm
            by_contra hcontent
            obtain ⟨x, hx, hxm⟩ := Option.map_eq_some_iff.mp (hall k m hm hcontent)
            rw [List.getElem?_tail] at hx
            obtain ⟨i, m₁, hi, hm₁, hm₁x⟩ := exists_piece_of_line hls hended hx
            have hempty := ih i m₁ (by omega) hm₁
            exact hcontent (hxm.symm.trans (hm₁x.symm.trans hempty))
      intro m hm
      obtain ⟨k, hk⟩ := List.mem_iff_getElem?.mp hm
      exact hnone _ k m (Nat.le_add_right _ k) hk
    · intro hempty k m hm hcontent
      exact absurd (hempty m (List.mem_of_getElem? hm)) hcontent
  · rfl

/-- The texts keep their numbers if and only if no two ends become one before a text. -/
theorem keepsNumbers_iff (h : ∀ l ∈ ls, l.IsPiece)
    (hended : ∀ l ∈ ls.dropLast, l.terminator ≠ "") :
    KeepsNumbers ls ↔ mergesEnds ls = false := by
  induction ls with
  | nil => exact ⟨fun _ => rfl, fun _ k l hl => by cases hl⟩
  | cons l ls ih =>
      cases ls with
      | nil =>
          have hmerges : mergesEnds [l] = false := by simp [mergesEnds, contents]
          refine ⟨fun _ => hmerges, fun _ k m hm hcontent => ?_⟩
          cases k with
          | zero =>
              cases hm
              rw [lines_join_singleton (List.forall_mem_singleton.mp h), if_neg]
              · rfl
              · exact fun heq => hcontent (congrArg Line.content heq)
          | succ k => cases hm
      | cons l' ls =>
          rw [keepsNumbers_cons h hended, mergesEnds, Bool.or_eq_false_iff]
          have hrest := ih (List.forall_mem_cons.mp h).2
            (List.forall_mem_cons.mp (List.dropLast_cons_cons ▸ hended)).2
          by_cases hsplit : splitsEnd l.text.toList (join (l' :: ls)).toList = true
          · rw [if_pos hsplit, hsplit, Bool.true_and, Bool.not_eq_false', List.isEmpty_iff]
            exact ⟨fun hnil => ⟨hnil, mergesEnds_of_contents_nil hnil⟩, fun hboth => hboth.1⟩
          · rw [if_neg hsplit, hrest, Bool.eq_false_iff.mpr hsplit, Bool.false_and]
            exact ⟨fun hmerges => ⟨rfl, hmerges⟩, fun hboth => hboth.2⟩

end

end Text

end Preprocessor
