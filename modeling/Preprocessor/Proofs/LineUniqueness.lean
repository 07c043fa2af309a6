/-
The one way to cut a text into lines.

The lines of a text give the text back, none of them has an end inside, only the last may lack its
end, and no carriage return is cut from its line feed.  There is one list of lines of which all
this is true.  Both halves go a line at a time: putting a line in front of a text changes the lines
of the text by `attach`, which keeps what is said here, and does nothing but add the line if what
is said here already holds.
-/
import Preprocessor.Proofs.LineJoining

namespace Preprocessor

namespace Text

/-- Lines as they can follow each other in a text. -/
structure IsCut (ls : List Line) : Prop where
  /-- No line ends inside another. -/
  unbroken : ∀ l ∈ ls, '\n' ∉ l.content.toList ∧ '\r' ∉ l.content.toList
  /-- A line without an end is not empty. -/
  ended : ∀ l ∈ ls, l.terminator = "\n" ∨ l.terminator = "\r\n" ∨ l.terminator = "\r" ∨
    l.terminator = "" ∧ l.content ≠ ""
  /-- Only the last line may have no end. -/
  endedInside : ∀ l ∈ ls.dropLast, l.terminator ≠ ""
  /-- No end is cut in two. -/
  whole : ls.IsChain fun l m => ¬(l.terminator = "\r" ∧ m.content = "" ∧ m.terminator = "\n")

theorem unbroken_iff {cs : List Char} : unbroken cs = true ↔ '\n' ∉ cs ∧ '\r' ∉ cs := by
  induction cs with
  | nil => simp [unbroken]
  | cons c cs ih =>
      simp only [unbroken, List.all_cons, Bool.and_eq_true, bne_iff_ne, List.mem_cons, not_or]
      rw [← unbroken, ih]
      constructor
      · rintro ⟨⟨hfeed, hreturn⟩, hcs⟩
        exact ⟨⟨Ne.symm hfeed, hcs.1⟩, Ne.symm hreturn, hcs.2⟩
      · rintro ⟨⟨hfeed, hcsFeed⟩, hreturn, hcsReturn⟩
        exact ⟨⟨Ne.symm hfeed, Ne.symm hreturn⟩, hcsFeed, hcsReturn⟩

/-- A list of lines can be read from the front: a first line, and lines that it can precede. -/
theorem isCut_cons_iff {l : Line} {ls : List Line} :
    IsCut (l :: ls) ↔
      unbroken l.content.toList = true ∧
      (l.terminator = "\n" ∨ l.terminator = "\r\n" ∨ l.terminator = "\r" ∨
        l.terminator = "" ∧ l.content ≠ "") ∧
      (l.terminator = "" → ls = []) ∧
      ¬(l.terminator = "\r" ∧ ls.head? = some ⟨"", "\n"⟩) ∧ IsCut ls := by
  cases ls with
  | nil =>
      constructor
      · intro h
        exact ⟨unbroken_iff.mpr (h.unbroken l List.mem_cons_self), h.ended l List.mem_cons_self,
          fun _ => rfl, by simp, by constructor <;> simp⟩
      · rintro ⟨hunbroken, hended, -, -, -⟩
        exact ⟨by simpa using unbroken_iff.mp hunbroken, by simpa using hended, by simp, by simp⟩
  | cons m ls =>
      have hhead : (m :: ls).head? = some ⟨"", "\n"⟩ ↔ m.content = "" ∧ m.terminator = "\n" := by
        cases m
        simp
      rw [hhead]
      constructor
      · intro h
        have hends := h.endedInside
        have hwhole := List.isChain_cons_cons.mp h.whole
        rw [List.dropLast_cons_cons, List.forall_mem_cons] at hends
        exact ⟨unbroken_iff.mpr (h.unbroken l List.mem_cons_self), h.ended l List.mem_cons_self,
          fun hl => absurd hl hends.1, hwhole.1, (List.forall_mem_cons.mp h.unbroken).2,
          (List.forall_mem_cons.mp h.ended).2, hends.2, hwhole.2⟩
      · rintro ⟨hunbroken, hended, hlast, hwhole, hls⟩
        refine ⟨List.forall_mem_cons.mpr ⟨unbroken_iff.mp hunbroken, hls.unbroken⟩,
          List.forall_mem_cons.mpr ⟨hended, hls.ended⟩, ?_,
          List.isChain_cons_cons.mpr ⟨hwhole, hls.whole⟩⟩
        rw [List.dropLast_cons_cons, List.forall_mem_cons]
        exact ⟨fun hl => List.cons_ne_nil m ls (hlast hl), hls.endedInside⟩

variable {l : Line} {ls : List Line}

theorem isPiece_of_isCut_cons (h : IsCut (l :: ls)) : l.IsPiece := by
  obtain ⟨hunbroken, hended, -⟩ := isCut_cons_iff.mp h
  refine ⟨hunbroken, ?_⟩
  simp only [ends, List.mem_cons, List.not_mem_nil, or_false]
  rcases hended with h | h | h | ⟨h, -⟩
  · exact .inl h
  · exact .inr (.inl h)
  · exact .inr (.inr (.inl h))
  · exact .inr (.inr (.inr h))

/-! ## Lines that fit are the lines of their text -/

theorem attach_of_isCut (h : IsCut (l :: ls)) : attach l ls = l :: ls := by
  obtain ⟨-, hended, hlast, hwhole, -⟩ := isCut_cons_iff.mp h
  by_cases hterminator : l.terminator = ""
  · have hcontent : l.content ≠ "" := by simpa [hterminator] using hended
    rw [hlast hterminator, attach_nil, if_neg]
    exact fun heq => hcontent (congrArg Line.content heq)
  · exact attach_of_ended hterminator hwhole

theorem lines_join_of_isCut (h : IsCut ls) : lines (join ls) = ls := by
  induction ls with
  | nil => rfl
  | cons l ls ih =>
      have hls : IsCut ls := (isCut_cons_iff.mp h).2.2.2.2
      rw [join_cons, lines_text_append (isPiece_of_isCut_cons h), ih hls, attach_of_isCut h]

/-! ## The lines of a text fit -/

theorem isCut_attach (hl : l.IsPiece) (h : IsCut ls) : IsCut (attach l ls) := by
  have hends := hl.terminator
  simp only [ends, List.mem_cons, List.not_mem_nil, or_false] at hends
  by_cases hterminator : l.terminator = ""
  · cases ls with
    | nil =>
        rw [attach_nil]
        split
        · exact h
        · next hne =>
          have hcontent : l.content ≠ "" := by
            intro hcontent
            cases l
            exact hne (by simp_all)
          exact isCut_cons_iff.mpr ⟨hl.unbroken, .inr (.inr (.inr ⟨hterminator, hcontent⟩)),
            fun _ => rfl, by simp, h⟩
    | cons m ls =>
        -- the piece runs on into the first line, which keeps its end
        obtain ⟨hunbroken, hended, hlast, hwhole, hls⟩ := isCut_cons_iff.mp h
        rw [attach_cons_of_unended hterminator]
        refine isCut_cons_iff.mpr ⟨?_, ?_, hlast, hwhole, hls⟩
        · rw [String.toList_append]
          exact unbroken_append.mpr ⟨hl.unbroken, hunbroken⟩
        · refine hended.imp_right (Or.imp_right (Or.imp_right (And.imp_right fun hcontent => ?_)))
          simp [hcontent]
  · have hended : l.terminator = "\n" ∨ l.terminator = "\r\n" ∨ l.terminator = "\r" ∨
        l.terminator = "" ∧ l.content ≠ "" := by
      simpa [hterminator] using hends
    by_cases hmerging : l.terminator = "\r" ∧ ls.head? = some ⟨"", "\n"⟩
    · obtain ⟨rest, rfl⟩ := List.head?_eq_some_iff.mp hmerging.2
      rw [attach_of_merging hmerging.1 hmerging.2]
      exact isCut_cons_iff.mpr ⟨hl.unbroken, .inr (.inl rfl), by simp, by simp,
        (isCut_cons_iff.mp h).2.2.2.2⟩
    · rw [attach_of_ended hterminator hmerging]
      exact isCut_cons_iff.mpr ⟨hl.unbroken, hended, fun hempty => absurd hempty hterminator,
        hmerging, h⟩

theorem isCut_lines_join (h : ∀ l ∈ ls, l.IsPiece) : IsCut (lines (join ls)) := by
  induction ls with
  | nil => constructor <;> simp [lines, linesFrom]
  | cons l ls ih =>
      obtain ⟨hl, hls⟩ := List.forall_mem_cons.mp h
      rw [join_cons, lines_text_append hl]
      exact isCut_attach hl (ih hls)

theorem isCut_lines (s : String) : IsCut (lines s) := by
  have hlines := isCut_lines_join fun l (hl : l ∈ lines s) => isPiece_of_mem_lines hl
  rwa [join_lines] at hlines

/-- The lines of a text are the one list of lines that gives the text back, in which no line has
an end inside, only the last one may lack its end, which then is not empty, and no carriage return
is parted from a line feed that follows it. -/
theorem isCut_iff_lines (s : String) (ls : List Line) :
    IsCut ls ∧ String.join (ls.map fun l => l.content ++ l.terminator) = s ↔ ls = lines s := by
  have hjoin (ls : List Line) :
      String.join (ls.map fun l => l.content ++ l.terminator) = join ls := by
    induction ls with
    | nil => rfl
    | cons l ls ih => rw [List.map_cons, String.join_cons, ih, join_cons, Line.text]
  rw [hjoin]
  constructor
  · rintro ⟨hcut, rfl⟩
    exact (lines_join_of_isCut hcut).symm
  · rintro rfl
    exact ⟨isCut_lines s, join_lines s⟩

end Text

end Preprocessor
