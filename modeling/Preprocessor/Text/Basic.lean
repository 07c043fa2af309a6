/-
Trimming and cutting texts.

Texts are cut on their characters, so these functions work on lists of characters; the
few that other modules apply to whole strings have a string form.
-/
import Preprocessor.Text.Blank

namespace Preprocessor.Text

/-- Drops blank characters from the front. -/
def trimStart (cs : List Char) : List Char :=
  cs.dropWhile isBlank

/-- Drops blank characters from the back. -/
def trimEnd (cs : List Char) : List Char :=
  (cs.reverse.dropWhile isBlank).reverse

/-- Drops blank characters from both ends. -/
def trim (cs : List Char) : List Char :=
  trimEnd (trimStart cs)

/-- A string without the blank characters at its ends. -/
def trimmed (s : String) : String :=
  String.ofList (trim s.toList)

def trimmedEnd (s : String) : String :=
  String.ofList (trimEnd s.toList)

/-- What follows `head` in a text that starts with it. -/
def after? : (head : List Char) → List Char → Option (List Char)
  | [], cs => some cs
  | _ :: _, [] => none
  | h :: hs, c :: cs => if h == c then after? hs cs else none

/-- The text before and after the first occurrence of `mark`. -/
def cut (mark : List Char) : List Char → Option (List Char × List Char)
  | [] => if mark.isEmpty then some ([], []) else none
  | c :: cs =>
    match after? mark (c :: cs) with
    | some rest => some ([], rest)
    | none => (cut mark cs).map fun (before, rest) => (c :: before, rest)

theorem length_of_after? {head cs rest : List Char} (h : after? head cs = some rest) :
    cs.length = head.length + rest.length := by
  induction head generalizing cs with
  | nil => cases h; simp
  | cons a as ih =>
    cases cs with
    | nil => cases h
    | cons c cs =>
      unfold after? at h
      split at h
      · have := ih h
        simp only [List.length_cons]
        omega
      · cases h

theorem length_of_cut {mark cs before rest : List Char} (h : cut mark cs = some (before, rest)) :
    cs.length = before.length + mark.length + rest.length := by
  induction cs generalizing before with
  | nil =>
    unfold cut at h
    split at h
    · next hm => cases h; simp_all
    · cases h
  | cons c cs ih =>
    unfold cut at h
    split at h
    · next hr =>
      cases h
      have := length_of_after? hr
      simp only [List.length_nil]
      omega
    · obtain ⟨⟨b, r⟩, hc, he⟩ := Option.map_eq_some_iff.1 h
      cases he
      have := ih hc
      simp only [List.length_cons]
      omega

def occursIn (part whole : String) : Bool :=
  (cut part.toList whole.toList).isSome

end Preprocessor.Text
