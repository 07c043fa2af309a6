/-
Failures of a command: what failed, and the causes in turn.
-/
import Preprocessor.Text.Basic

namespace Preprocessor

/-- A failure, and its causes, each the cause of the one before. -/
structure Failure where
  message : String
  causes : List String := []

namespace Failure

def within (f : Failure) (message : String) : Failure :=
  ⟨message, f.message :: f.causes⟩

/-- A text whose further lines are indented. -/
def indented (width : Nat) (s : String) : String :=
  String.ofList (s.toList.flatMap fun c =>
    if c == '\n' then c :: List.replicate width ' ' else [c])

def numbered (i : Nat) (cause : String) : String :=
  let number := toString i
  String.ofList (List.replicate (5 - number.length) ' ') ++ number ++ ": " ++ indented 7 cause

/-- The causes, which are numbered if there are several. -/
def causeLines : List String → List String
  | [] => []
  | [cause] => ["    " ++ indented 4 cause]
  | causes => causes.zipIdx.map fun (cause, i) => numbered i cause

def text (f : Failure) : String :=
  let causes := causeLines f.causes
  let tail := if causes.isEmpty then "" else "\n\nCaused by:\n" ++ "\n".intercalate causes
  "Error: " ++ f.message ++ tail ++ "\n"

end Failure

end Preprocessor
