/-
Finite sets of strings.

A set is the increasing list of its members, so a set has one representation and its
members come out in code point order.
-/

namespace Preprocessor

/-- A finite set of strings, listed in increasing order. -/
structure TextSet where
  members : List String
  increasing : members.Pairwise (· < ·)
deriving DecidableEq

namespace TextSet

/-- Puts a string at its place in an increasing list, unless it is there. -/
def insertInto (x : String) : List String → List String
  | [] => [x]
  | y :: ys => if x < y then x :: y :: ys else if y < x then y :: insertInto x ys else y :: ys

theorem mem_insertInto {a x : String} {l : List String} :
    a ∈ insertInto x l ↔ a = x ∨ a ∈ l := by
  induction l with
  | nil => simp [insertInto]
  | cons y ys ih =>
    unfold insertInto
    split
    · simp
    · split
      · simp only [List.mem_cons, ih]
        constructor
        · rintro (h | h | h)
          · exact .inr (.inl h)
          · exact .inl h
          · exact .inr (.inr h)
        · rintro (h | h | h)
          · exact .inr (.inl h)
          · exact .inl h
          · exact .inr (.inr h)
      · next hxy hyx =>
        -- neither is below the other, so the string is already the head
        have hx : x = y := String.le_antisymm (String.not_lt.1 hyx) (String.not_lt.1 hxy)
        simp [hx]

theorem insertInto_increasing {x : String} {l : List String} (h : l.Pairwise (· < ·)) :
    (insertInto x l).Pairwise (· < ·) := by
  induction l with
  | nil => simp [insertInto]
  | cons y ys ih =>
    have hy := List.pairwise_cons.1 h
    unfold insertInto
    split
    · next hxy =>
      refine List.pairwise_cons.2 ⟨fun b hb => ?_, h⟩
      rcases List.mem_cons.1 hb with rfl | hb
      · exact hxy
      · exact String.lt_trans hxy (hy.1 b hb)
    · split
      · next hyx =>
        refine List.pairwise_cons.2 ⟨fun b hb => ?_, ih hy.2⟩
        rcases mem_insertInto.1 hb with rfl | hb
        · exact hyx
        · exact hy.1 b hb
      · exact h

def empty : TextSet := ⟨[], .nil⟩

def insert (s : TextSet) (x : String) : TextSet :=
  ⟨insertInto x s.members, insertInto_increasing s.increasing⟩

def ofList (xs : List String) : TextSet :=
  xs.foldl insert empty

/-- The members of either set. -/
def union (s t : TextSet) : TextSet :=
  t.members.foldl insert s

def erase (s : TextSet) (x : String) : TextSet :=
  ⟨s.members.filter (· != x), s.increasing.filter _⟩

/-- The members of the first set that the second lacks. -/
def diff (s t : TextSet) : TextSet :=
  ⟨s.members.filter (!t.members.contains ·), s.increasing.filter _⟩

def contains (s : TextSet) (x : String) : Bool :=
  s.members.contains x

/-- The number of members. -/
def size (s : TextSet) : Nat :=
  s.members.length

end TextSet

end Preprocessor
