/-
The longest of the heads of a text.

All heads of one text are heads of each other.  So the longest of those that are listed is one
text, whether length is counted in characters or in bytes, and it neither counts how often a head
is listed nor in which place.

The heads are sorted by their length in bytes, and a stable sort keeps heads of one length as they
were listed.  Both could show in the result only if a text had two heads of one length, and it has
not: of two heads of a text, the one that is not longer is a head of the other.
-/
import Mathlib.Data.List.Perm.Basic
import Preprocessor.Proofs.TextCutting
import Preprocessor.Text.Heads

namespace Preprocessor.Text

variable {heads heads' : List String} {replacement s h h' : String}

theorem isSome_after?_iff {head cs : List Char} : (after? head cs).isSome = true ↔ head <+: cs := by
  constructor
  · intro hsome
    obtain ⟨rest, hrest⟩ := Option.isSome_iff_exists.mp hsome
    exact ⟨rest, (eq_of_after? hrest).symm⟩
  · rintro ⟨rest, rfl⟩
    rw [after?_append, Option.isSome_some]

/-! ## Heads of one text -/

theorem head_of_utf8ByteSize_le (hs : h.toList <+: s.toList) (hs' : h'.toList <+: s.toList)
    (hsize : h'.utf8ByteSize ≤ h.utf8ByteSize) : h'.toList <+: h.toList := by
  rcases List.prefix_or_prefix_of_prefix hs' hs with hle | ⟨more, hmore⟩
  · exact hle
  · obtain rfl : h' = h ++ String.ofList more := by
      rw [← String.toList_inj, String.toList_append, String.toList_ofList, hmore]
    have hempty : String.ofList more = "" := by
      rw [← String.utf8ByteSize_eq_zero_iff]
      rw [String.utf8ByteSize_append] at hsize
      omega
    exact ⟨[], by rw [hempty, String.append_empty, List.append_nil]⟩

/-- `h` is the longest of the heads with which a text starts. -/
structure IsLongestHead (heads : List String) (s h : String) : Prop where
  mem : h ∈ heads
  starts : h.toList <+: s.toList
  longest : ∀ h' ∈ heads, h'.toList <+: s.toList →
    h'.length ≤ h.length ∧ h'.utf8ByteSize ≤ h.utf8ByteSize

namespace IsLongestHead

theorem unique (hh : IsLongestHead heads s h) (hh' : IsLongestHead heads s h') : h = h' := by
  have hle := head_of_utf8ByteSize_le hh.starts hh'.starts
    (hh.longest h' hh'.mem hh'.starts).2
  have hge := head_of_utf8ByteSize_le hh'.starts hh.starts (hh'.longest h hh.mem hh.starts).2
  exact String.toList_inj.mp (hge.eq_of_length_le hle.length_le)

theorem of_mem_iff (hh : IsLongestHead heads s h) (hmem : ∀ h, h ∈ heads' ↔ h ∈ heads) :
    IsLongestHead heads' s h where
  mem := (hmem h).mpr hh.mem
  starts := hh.starts
  longest h' hh' := hh.longest h' ((hmem h').mp hh')

end IsLongestHead

/-! ## The first match -/

theorem longestFirst_perm (heads : List String) : (longestFirst heads).Perm heads :=
  List.mergeSort_perm heads _

theorem pairwise_longestFirst (heads : List String) :
    (longestFirst heads).Pairwise fun h h' => h'.utf8ByteSize ≤ h.utf8ByteSize := by
  have hsorted : (longestFirst heads).Pairwise fun a b =>
      decide (b.utf8ByteSize ≤ a.utf8ByteSize) = true := by
    refine List.pairwise_mergeSort (fun a b c hab hbc => ?_) (fun a b => ?_) heads
    · rw [decide_eq_true_iff] at *
      omega
    · rw [Bool.or_eq_true, decide_eq_true_iff, decide_eq_true_iff]
      omega
  exact hsorted.imp fun h => of_decide_eq_true h

/-- Where longer heads come first, the first match is the longest: those before it do not match,
and those after it are not longer. -/
theorem isLongestHead_of_find? {ordered : List String}
    (hordered : ordered.Pairwise fun h h' => h'.utf8ByteSize ≤ h.utf8ByteSize)
    (hfind : (ordered.find? fun h => (after? h.toList s.toList).isSome) = some h) :
    IsLongestHead ordered s h := by
  obtain ⟨hmatch, before, rest, rfl, hbefore⟩ := List.find?_eq_some_iff_append.mp hfind
  have hs := isSome_after?_iff.mp hmatch
  refine ⟨by simp, hs, fun h' hh' hs' => ?_⟩
  have hsize : h'.utf8ByteSize ≤ h.utf8ByteSize := by
    rcases List.mem_append.mp hh' with hearlier | hlater
    · have hmiss := hbefore h' hearlier
      rw [isSome_after?_iff.mpr hs'] at hmiss
      cases hmiss
    · rcases List.mem_cons.mp hlater with rfl | hlater
      · exact Nat.le_refl _
      · exact (List.pairwise_cons.mp (List.pairwise_append.mp hordered).2.1).1 h' hlater
  exact ⟨(head_of_utf8ByteSize_le hs hs' hsize).length_le, hsize⟩

/-- The heads are searched for the longest one, and none is found exactly if a text starts with
none of them. -/
theorem find?_longestFirst_cases (heads : List String) (s : String) :
    let found := (longestFirst heads).find? fun h => (after? h.toList s.toList).isSome
    (∃ h, found = some h ∧ IsLongestHead heads s h) ∨
      found = none ∧ ∀ h ∈ heads, ¬h.toList <+: s.toList := by
  intro found
  have hmem (h : String) : h ∈ heads ↔ h ∈ longestFirst heads :=
    (longestFirst_perm heads).mem_iff.symm
  cases hfound : found with
  | some h =>
      refine .inl ⟨h, rfl, ?_⟩
      exact (isLongestHead_of_find? (pairwise_longestFirst heads) hfound).of_mem_iff hmem
  | none =>
      refine .inr ⟨rfl, fun h hh hs => ?_⟩
      exact List.find?_eq_none.mp hfound h ((hmem h).mp hh) (isSome_after?_iff.mpr hs)

/-! ## Replacing -/

/-- `Replaced heads replacement s t`: the longest of its heads is replaced in `s`, which is left
alone if it has none of them. -/
inductive Replaced (heads : List String) (replacement : String) : String → String → Prop
  | longest {h rest : String} : IsLongestHead heads (h ++ rest) h →
      Replaced heads replacement (h ++ rest) (replacement ++ rest)
  | unmatched {s : String} : (∀ h ∈ heads, ¬h.toList <+: s.toList) →
      Replaced heads replacement s s

theorem Replaced.unique {t t' : String} (ht : Replaced heads replacement s t)
    (ht' : Replaced heads replacement s t') : t = t' := by
  generalize hs : s = s' at ht'
  cases ht with
  | @longest h rest hh =>
      cases ht' with
      | @longest h' rest' hh' =>
          obtain rfl : h = h' := hh.unique (hs ▸ hh')
          obtain rfl : rest = rest' := by simpa [← String.toList_inj] using hs
          rfl
      | unmatched hnone => exact absurd (hs ▸ hh.starts) (hnone h hh.mem)
  | unmatched hnone =>
      cases ht' with
      | @longest h' rest' hh' => exact absurd (hs ▸ hh'.starts) (hnone h' hh'.mem)
      | unmatched _ => exact hs

theorem replaced_replaceFirst (heads : List String) (replacement s : String) :
    Replaced heads replacement s (replaceFirst (longestFirst heads) replacement s) := by
  unfold replaceFirst
  rcases find?_longestFirst_cases heads s with ⟨h, hfound, hh⟩ | ⟨hfound, hnone⟩
  · rw [hfound]
    obtain ⟨rest, hrest⟩ := hh.starts
    obtain rfl : s = h ++ String.ofList rest := by
      rw [← String.toList_inj, String.toList_append, String.toList_ofList, hrest]
    have hdrop : (h ++ String.ofList rest).toList.drop h.length = rest := by
      rw [← hrest, ← String.length_toList, List.drop_left]
    dsimp only
    rw [hdrop]
    exact .longest hh
  · rw [hfound]
    exact .unmatched hnone

theorem Replaced.of_mem_iff {t : String} (ht : Replaced heads replacement s t)
    (hmem : ∀ h, h ∈ heads' ↔ h ∈ heads) : Replaced heads' replacement s t := by
  cases ht with
  | longest hh => exact .longest (hh.of_mem_iff hmem)
  | unmatched hnone => exact .unmatched fun h hh => hnone h ((hmem h).mp hh)

/-- Replacing takes the longest head of each text and ignores the order of the heads.  The results
stand in the order of the texts, one for each: what follows the longest of the listed heads with
which a text starts, behind the replacement, or the text itself if it starts with none of them; no
other results meet this.  Every permutation of the heads gives the same results. -/
theorem replaceHeads_longest (heads : List String) (replacement : String) (values : List String) :
    (∀ results, List.Forall₂ (Replaced heads replacement) values results ↔
      results = replaceHeads heads replacement values) ∧
    ∀ heads', heads'.Perm heads →
      replaceHeads heads' replacement values = replaceHeads heads replacement values := by
  have hreplaced :
      List.Forall₂ (Replaced heads replacement) values (replaceHeads heads replacement values) :=
    List.forall₂_map_right_iff.mpr
      (List.forall₂_same.mpr fun v _ => replaced_replaceFirst heads replacement v)
  have hunique : Relator.RightUnique (Replaced heads replacement) := fun _ _ _ => Replaced.unique
  refine ⟨fun results => ⟨fun hresults => ?_, ?_⟩, fun heads' hperm => ?_⟩
  · exact hunique.forall₂ hresults hreplaced
  · rintro rfl
    exact hreplaced
  · refine List.map_congr_left fun v _ => ?_
    have hreordered := replaced_replaceFirst heads' replacement v
    exact (hreordered.of_mem_iff fun h => hperm.mem_iff.symm).unique
      (replaced_replaceFirst heads replacement v)

/-- A head of two characters and three bytes, found behind one of its own heads, and a head that is
listed twice. -/
theorem replaceHeads_longest_reordered :
    ["é", "-", "é-", "-"].Perm ["é-", "é", "-", "-"] ∧
      replaceHeads ["é", "-", "é-", "-"] "/" ["é-a", "éb", "-", "c"] = ["/a", "/b", "/", "c"] := by
  have hperm : ["é", "-", "é-", "-"].Perm ["é-", "é", "-", "-"] := by decide
  have hordered : longestFirst ["é-", "é", "-", "-"] = ["é-", "é", "-", "-"] :=
    longestFirst_of_pairwise (by decide +kernel)
  have hvalue : ["é-a", "éb", "-", "c"].map (replaceFirst ["é-", "é", "-", "-"] "/") =
      ["/a", "/b", "/", "c"] := by decide +kernel
  refine ⟨hperm, ?_⟩
  rw [(replaceHeads_longest ["é-", "é", "-", "-"] "/" ["é-a", "éb", "-", "c"]).2 _ hperm,
    replaceHeads, hordered, hvalue]

end Preprocessor.Text
