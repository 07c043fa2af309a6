/-
Lines and the texts they come from.

A text is its lines put together again.  Where a line ends, a text can be cut: the lines of two
texts put together are the lines of both, unless the cut goes through a carriage return and its
line feed.
-/
import Mathlib.Tactic.Common
import Preprocessor.Text.Lines

namespace Preprocessor

def Line.text (line : Line) : String :=
  line.content ++ line.terminator

namespace Text

def join (lines : List Line) : String :=
  lines.foldr (fun line text => line.text ++ text) ""

@[simp] theorem join_nil : join [] = "" := rfl

@[simp] theorem join_cons (line : Line) (lines : List Line) :
    join (line :: lines) = line.text ++ join lines := rfl

theorem join_append (lines lines' : List Line) :
    join (lines ++ lines') = join lines ++ join lines' := by
  induction lines with
  | nil => simp
  | cons line lines ih => simp [ih, String.append_assoc]

theorem linesFrom_append (done more : List Line) (current cs : List Char) :
    linesFrom (done ++ more) current cs = more.reverse ++ linesFrom done current cs := by
  fun_induction linesFrom done current cs with
  | case1 done current hempty => simp [linesFrom, hempty]
  | case2 done current hempty => simp [linesFrom, hempty]
  | case3 done current rest ih => rw [linesFrom, ← ih, List.cons_append]
  | case4 done current rest ih => rw [linesFrom, ← ih, List.cons_append]
  | case5 done current rest hrest ih => rw [linesFrom, ← ih, List.cons_append]; exact hrest
  | case6 done current c rest h₁ h₂ h₃ ih => rw [linesFrom, ← ih] <;> assumption

theorem join_linesFrom (done : List Line) (current cs : List Char) :
    join (linesFrom done current cs) =
      join done.reverse ++ String.ofList (current.reverse ++ cs) := by
  fun_induction linesFrom done current cs with
  | case1 done current hempty => simp [List.isEmpty_iff.mp hempty]
  | case2 done current hempty => simp [join_append, Line.text]
  | case3 done current rest ih => simp [ih, join_append, Line.text, String.append_assoc]
  | case4 done current rest ih =>
      have hend (s : String) : "\r\n" ++ s = "\r" ++ ("\n" ++ s) := by
        rw [← String.append_assoc]
        rfl
      simp [ih, join_append, Line.text, String.append_assoc, hend]
  | case5 done current rest hrest ih => simp [ih, join_append, Line.text, String.append_assoc]
  | case6 done current c rest h₁ h₂ h₃ ih => simp [ih]

theorem join_lines (s : String) : join (lines s) = s := by
  rw [lines, join_linesFrom]
  simp

theorem content_infix {s : String} {line : Line} (h : line ∈ lines s) :
    line.content.toList <:+: s.toList := by
  obtain ⟨before, after, hlines⟩ := List.append_of_mem h
  have hs := join_lines s
  rw [hlines, join_append, join_cons, Line.text] at hs
  rw [← hs]
  simp only [String.toList_append, List.append_assoc]
  exact ⟨_, _, by rw [List.append_assoc]⟩

/-! ## Texts that are put together -/

/-- Whether a new line begins after a text. -/
def endsLine (cs : List Char) : Bool :=
  cs.getLast?.all fun c => c == '\n' || c == '\r'

/-- Whether one text ends and the next begins inside the end of a line. -/
def splitsEnd (cs ds : List Char) : Bool :=
  cs.getLast? == some '\r' && ds.head? == some '\n'

theorem endsLine_of_cons {c : Char} {cs : List Char} (h : endsLine (c :: cs) = true) :
    endsLine cs = true := by
  cases cs with
  | nil => rfl
  | cons d cs => rwa [endsLine, List.getLast?_cons_cons] at h

theorem splitsEnd_of_cons {c : Char} {cs ds : List Char} (h : splitsEnd (c :: cs) ds = false) :
    splitsEnd cs ds = false := by
  cases cs with
  | nil => rfl
  | cons d cs => rwa [splitsEnd, List.getLast?_cons_cons] at h

theorem linesFrom_cut {done : List Line} {current cs ds : List Char}
    (hcurrent : cs = [] → current = []) (hends : endsLine cs = true)
    (hcut : splitsEnd cs ds = false) :
    linesFrom done current (cs ++ ds) = linesFrom done current cs ++ linesFrom [] [] ds := by
  fun_induction linesFrom done current cs with
  | case1 done current _ =>
      rw [hcurrent rfl]
      exact linesFrom_append [] done [] ds
  | case2 done current hnonempty => exact absurd (by rw [hcurrent rfl]; rfl) hnonempty
  | case3 done current rest ih =>
      rw [List.cons_append, linesFrom]
      exact ih (fun _ => rfl) (endsLine_of_cons hends) (splitsEnd_of_cons hcut)
  | case4 done current rest ih =>
      rw [List.cons_append, List.cons_append, linesFrom]
      exact ih (fun _ => rfl) (endsLine_of_cons (endsLine_of_cons hends))
        (splitsEnd_of_cons (splitsEnd_of_cons hcut))
  | case5 done current rest hrest ih =>
      -- no line feed follows the carriage return, not even across the cut
      have hnext : ∀ more, rest ++ ds = '\n' :: more → False := by
        intro more hmore
        cases rest with
        | nil =>
            rw [List.nil_append] at hmore
            rw [hmore] at hcut
            cases hcut
        | cons d rest =>
            cases hmore
            exact hrest rest rfl
      rw [List.cons_append, linesFrom]
      · exact ih (fun _ => rfl) (endsLine_of_cons hends) (splitsEnd_of_cons hcut)
      · exact hnext
  | case6 done current c rest hfeed _ hreturn ih =>
      have hrest : rest = [] → c :: current = [] := by
        rintro rfl
        simp only [endsLine, List.getLast?_singleton, Option.all_some, Bool.or_eq_true,
          beq_iff_eq] at hends
        exact absurd hends (not_or_intro hfeed hreturn)
      rw [List.cons_append, linesFrom]
      · exact ih hrest (endsLine_of_cons hends) (splitsEnd_of_cons hcut)
      · exact hfeed
      · exact fun _ hc _ => hreturn hc
      · exact hreturn

/-- The lines of two texts put together are the lines of both, if a new line begins between them. -/
theorem lines_append {s s' : String} (hends : endsLine s.toList = true)
    (hcut : splitsEnd s.toList s'.toList = false) : lines (s ++ s') = lines s ++ lines s' := by
  rw [lines, String.toList_append]
  exact linesFrom_cut (fun _ => rfl) hends hcut

/-- Whether texts that are put together keep their lines: no line runs on from one text into the
next, and the end of no line is cut. -/
def wholeLines : List String → Bool
  | [] => true
  | s :: rest =>
    (endsLine s.toList || (String.join rest).isEmpty) &&
      !splitsEnd s.toList (String.join rest).toList && wholeLines rest

theorem lines_of_wholeLines {texts : List String} (h : wholeLines texts = true) :
    lines (String.join texts) = texts.flatMap lines := by
  induction texts with
  | nil => rfl
  | cons s rest ih =>
      simp only [wholeLines, Bool.and_eq_true, Bool.or_eq_true, Bool.not_eq_true'] at h
      obtain ⟨⟨hends, hcut⟩, hrest⟩ := h
      rw [String.join_cons, List.flatMap_cons, ← ih hrest]
      rcases hends with hends | hempty
      · exact lines_append hends hcut
      · rw [String.isEmpty_iff.mp hempty, String.append_empty]
        exact (List.append_nil _).symm

end Text

end Preprocessor
