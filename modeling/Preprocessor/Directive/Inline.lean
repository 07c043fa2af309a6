/-
Expressions inside a line.

A marker `/*$ expr $*/` is replaced by the value of its expression.  If a `/*-*/` follows
before the next marker, the text up to it is a default and goes with it.  Values are not
searched for markers again.
-/
import Preprocessor.Diagnostic
import Preprocessor.Host

namespace Preprocessor

namespace Inline

def openMark : List Char := ['/', '*', '$']

def closeMark : List Char := ['$', '*', '/']

def defaultMark : List Char := ['/', '*', '-', '*', '/']

/-- The text after a marker without its default, if it has one before the next marker. -/
def dropDefault (cs : List Char) : List Char :=
  match Text.cut defaultMark cs with
  | none => cs
  | some (skipped, rest) =>
    match Text.cut openMark cs with
    | none => rest
    | some (before, _) => if skipped.length < before.length then rest else cs

theorem length_dropDefault_le (cs : List Char) : (dropDefault cs).length ≤ cs.length := by
  unfold dropDefault
  split
  · exact Nat.le_refl _
  · next hc =>
    have := Text.length_of_cut hc
    split
    · omega
    · split <;> omega

variable {σ : Type}

def substituteChars (value : String → Hosted σ Fault String) (cs : List Char) :
    Hosted σ Fault (List Char) :=
  match _hopen : Text.cut openMark cs with
  | none => pure cs
  | some (before, rest) =>
    match _hclose : Text.cut closeMark rest with
    | none => throw .unterminatedMarker
    | some (expr, after) => do
      let inserted ← value (String.ofList (Text.trim expr))
      let more ← substituteChars value (dropDefault after)
      return before ++ inserted.toList ++ more
termination_by cs.length
decreasing_by
  have h₁ := Text.length_of_cut _hopen
  have h₂ := Text.length_of_cut _hclose
  have h₃ := length_dropDefault_le after
  simp only [openMark, closeMark, List.length_cons, List.length_nil] at h₁ h₂
  omega

/-- A line with its markers replaced. -/
def substitute (value : String → Hosted σ Fault String) (line : String) :
    Hosted σ Fault String :=
  String.ofList <$> substituteChars value line.toList

end Inline

end Preprocessor
