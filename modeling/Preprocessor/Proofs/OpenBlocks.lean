/-
Which lines have opened the blocks that are open.

Reading the lines of a file as directives is enough to tell which of them open a block that no
later line has closed; no condition has to be known for it.  The stack of open blocks of a file
always holds exactly these lines, in the same order, since the directives that shape the blocks
are followed in suppressed regions too.
-/
import Preprocessor.Proofs.BlockMoves
import Preprocessor.Text.Lines

namespace Preprocessor

variable {σ : Type}

/-- The lines that opened the blocks, the innermost first. -/
def Conditions.openedAt (c : Conditions) : List Nat :=
  c.blocks.map Block.openedAt

theorem Conditions.innermostOpen_eq (c : Conditions) : c.innermostOpen = c.openedAt.head? :=
  List.head?_map.symm

def LineKind.isOpening (content : String) : Bool :=
  match LineKind.classify content with
  | .ok (.directive (.ifTrue _)) => true
  | .ok (.directive (.ifDefined _)) => true
  | .ok (.directive (.ifNotDefined _)) => true
  | _ => false

def LineKind.isClosing (content : String) : Bool :=
  match LineKind.classify content with
  | .ok (.directive .endIf) => true
  | _ => false

/-- The lines with an open block after one more line. -/
def openAfter (opened : List Nat) (index : Nat) (content : String) : List Nat :=
  if LineKind.isOpening content then index :: opened
  else if LineKind.isClosing content then opened.tail
  else opened

/-- The lines among those from `index` on, and among those open before, whose block is open
after them, the innermost first. -/
def openLines : (opened : List Nat) → (index : Nat) → List Line → List Nat
  | opened, _, [] => opened
  | opened, index, line :: rest =>
    openLines (openAfter opened index line.content) (index + 1) rest

theorem exists_of_mem_openLines {opened : List Nat} {index n : Nat} {lines : List Line}
    (h : n ∈ openLines opened index lines) :
    n ∈ opened ∨ ∃ i line, n = index + i ∧ lines[i]? = some line ∧
      LineKind.isOpening line.content = true := by
  induction lines generalizing opened index with
  | nil => exact .inl h
  | cons line rest ih =>
      rcases ih h with hmem | ⟨i, line', rfl, hline, hopening⟩
      · unfold openAfter at hmem
        split at hmem
        · rename_i hopening
          rcases List.mem_cons.mp hmem with rfl | hmem
          · exact .inr ⟨0, line, rfl, rfl, hopening⟩
          · exact .inl hmem
        · split at hmem
          · exact .inl (List.mem_of_mem_tail hmem)
          · exact .inl hmem
      · exact .inr ⟨i + 1, line', by omega, hline, hopening⟩

/-! ## One line -/

theorem LineKind.isOpening_eq (content : String) :
    isOpening content = (part? content == some .opening) := by
  unfold isOpening part?
  rcases classify content with fault | (_ | d | _)
  all_goals try rfl
  cases d <;> rfl

theorem LineKind.isClosing_eq (content : String) :
    isClosing content = (part? content == some .closing) := by
  unfold isClosing part?
  rcases classify content with fault | (_ | d | _)
  all_goals try rfl
  cases d <;> rfl

/-- A line that is followed changes the open blocks as it reads. -/
theorem openedAt_of_processLine {host : Host σ} {site : Site} {content : String} {s s' : Scope}
    {e e' : Engine σ} {step : Step}
    (h : e.processLine host site content s = (.ok step, s', e')) :
    s'.conditions.openedAt = openAfter s.conditions.openedAt site.line content := by
  have hmoves := moves_of_processLine h
  rw [openAfter, LineKind.isOpening_eq, LineKind.isClosing_eq]
  generalize LineKind.part? content = part, s.conditions = c, s'.conditions = c' at hmoves ⊢
  cases hmoves <;> rfl

end Preprocessor
