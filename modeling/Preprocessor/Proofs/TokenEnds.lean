/-
Where a token ends.

A reader takes as many characters as can belong to its token, and looks beyond them to find out.
What it took tells the token by itself: in front of a blank or at the end of the text the same
characters are read as the same token, whatever followed them before.  A fault lies within the text
that was left to read.
-/
import Preprocessor.Proofs.NameReading

namespace Preprocessor

/-! ## Blanks -/

namespace Text

variable {c d : Char}

theorem forall_of_isBlank {p : Char → Prop}
    (h : ∀ range ∈ blankRanges, ∀ n ∈ List.range' range.1 (range.2 + 1 - range.1),
      p (Char.ofNat n)) (hc : isBlank c = true) : p c := by
  obtain ⟨range, hmem, hlo, hhi⟩ := Ranges.exists_of_contains hc
  have hp := h range hmem c.toNat (by rw [List.mem_range'_1]; omega)
  rwa [Char.ofNat_toNat] at hp

theorem isNamePart_of_isBlank (h : isBlank c = true) : isNamePart c = false :=
  forall_of_isBlank (p := fun c => isNamePart c = false) (by decide +kernel) h

theorem isHexDigit_of_isBlank (h : isBlank c = true) : Decimal.isHexDigit c = false :=
  forall_of_isBlank (p := fun c => Decimal.isHexDigit c = false) (by decide +kernel) h

theorem isDigit_of_isBlank (h : isBlank c = true) : Decimal.isDigit c = false :=
  forall_of_isBlank (p := fun c => Decimal.isDigit c = false) (by decide +kernel) h

theorem isBlank_of_class {p : Char → Bool} (hp : ∀ {d}, isBlank d = true → p d = false)
    (h : p c = true) : isBlank c = false := by
  cases hblank : isBlank c with
  | false => rfl
  | true => cases (hp hblank).symm.trans h

theorem ne_of_isBlank (hc : isBlank c = true) (hd : isBlank d = false) : c ≠ d := by
  rintro rfl
  rw [hc] at hd
  cases hd

end Text

namespace Token

/-- Every token has ended here: the text ends, or a blank follows. -/
def Ends (rest : List Char) : Prop :=
  ∀ c ∈ rest.head?, Text.isBlank c = true

variable {rest : List Char}

theorem Ends.nil : Ends [] := by
  intro c hc
  cases hc

theorem Ends.of_blanks (h : ∀ c ∈ rest, Text.isBlank c = true) : Ends rest :=
  fun c hc => h c (List.mem_of_head? hc)

theorem Ends.head?_ne {d : Char} (h : Ends rest) (hd : Text.isBlank d = false) :
    rest.head? ≠ some d :=
  fun hhead => Text.ne_of_isBlank (h d hhead) hd rfl

theorem takeWhile_of_head? {p : Char → Bool} {run : List Char} (hrun : ∀ c ∈ run, p c = true)
    (hrest : ∀ c ∈ rest.head?, p c = false) : (run ++ rest).takeWhile p = run := by
  rw [List.takeWhile_append_of_pos hrun]
  cases rest with
  | nil => rw [List.takeWhile_nil, List.append_nil]
  | cons c rest =>
      have hc := hrest c rfl
      rw [List.takeWhile_cons_of_neg (by rw [hc]; exact Bool.false_ne_true), List.append_nil]

theorem takeWhile_taken {p : Char → Bool} (cs : List Char)
    (hrest : ∀ c ∈ rest.head?, p c = false) :
    (cs.takeWhile p ++ rest).takeWhile p = cs.takeWhile p :=
  takeWhile_of_head? (fun _ hc => List.mem_takeWhile_imp hc) hrest

/-! ## Readers -/

/-- A reader that goes on after the first `k` characters of a token.  The token is told by its own
characters: where they are in front of a blank or of the end, they are read as before.  A fault lies
within the text. -/
structure Local (read : List Char → Read) (k : Nat) : Prop where
  token : ∀ {cs : List Char} {kind : TokenKind} {count : Nat}, read cs = .ok (kind, count) →
    ∃ own after, cs = own ++ after ∧ count = own.length + k ∧
      ∀ rest, Ends rest → read (own ++ rest) = .ok (kind, count)
  fault : ∀ {cs : List Char} {distance : Nat} {fault : ParseFault},
    read cs = .error (distance, fault) → distance < cs.length + k

namespace Local

variable {read read' : List Char → Read} {k : Nat}

theorem ite {p : Prop} [Decidable p] (h : p → Local read k) (h' : ¬ p → Local read' k) :
    Local (fun cs => if p then read cs else read' cs) k := by
  by_cases hp : p
  · simp only [if_pos hp]
    exact h hp
  · simp only [if_neg hp]
    exact h' hp

theorem whole (kind : TokenKind) : Local (fun _ => .ok (kind, k)) k where
  token := by
    intro cs kind' count hread
    cases hread
    exact ⟨[], cs, rfl, by rw [List.length_nil, Nat.zero_add], fun _ _ => rfl⟩
  fault := by
    intro cs distance fault hread
    cases hread

theorem failing (hk : 0 < k) (fault : ParseFault) : Local (fun _ => .error (0, fault)) k where
  token := by
    intro cs kind count hread
    cases hread
  fault := by
    intro cs distance fault' hread
    cases hread
    omega

end Local

theorem local_pair {second : Char} (both : Mark) (alone : Except ParseFault Mark)
    (hsecond : Text.isBlank second = false) : Local (pair second both alone) 1 := by
  have htwo {rest : List Char} (h : rest.head? = some second) :
      pair second both alone rest = .ok (.mark both, 2) := by
    unfold pair
    rw [if_pos (by simpa using h)]
  -- without the second character it is as if the text had ended
  have hone {rest : List Char} (h : rest.head? ≠ some second) :
      pair second both alone rest = pair second both alone [] := by
    unfold pair
    rw [if_neg (by simpa using h), if_neg (by simp)]
  constructor
  · intro cs kind count hread
    by_cases hhead : cs.head? = some second
    · rw [htwo hhead] at hread
      cases hread
      obtain ⟨after, rfl⟩ := List.head?_eq_some_iff.mp hhead
      exact ⟨[second], after, rfl, rfl, fun rest _ => htwo rfl⟩
    · rw [hone hhead] at hread
      have hcount : count = 1 := by
        cases alone with
        | error fault => cases hread
        | ok m =>
            cases hread
            rfl
      refine ⟨[], cs, rfl, hcount, fun rest hrest => ?_⟩
      rw [List.nil_append, hone (hrest.head?_ne hsecond), hread]
  · intro cs distance fault hread
    by_cases hhead : cs.head? = some second
    · rw [htwo hhead] at hread
      cases hread
    · rw [hone hhead] at hread
      cases alone with
      | error fault =>
          cases hread
          omega
      | ok m => cases hread

theorem local_readString (before : List Char) {count : Nat} (hcount : 0 < count) :
    Local (readString before count) count := by
  constructor
  · intro cs kind n hread
    fun_induction readString before count cs with
    | case1 => cases hread
    | case2 before count after =>
        cases hread
        refine ⟨['"'], after, rfl, Nat.add_comm _ _, fun rest _ => ?_⟩
        rw [List.cons_append, readString]
    | case3 => cases hread
    | case4 before count c more e hescaped ih =>
        obtain ⟨own, after, rfl, hn, hlocal⟩ := ih (by omega) hread
        refine ⟨'\\' :: c :: own, after, rfl, ?_, fun rest hrest => ?_⟩
        · rw [hn, List.length_cons, List.length_cons]
          omega
        · rw [List.cons_append, List.cons_append, readString, hescaped]
          exact hlocal rest hrest
    | case5 => cases hread
    | case6 before count c cs hquote hescape ih =>
        obtain ⟨own, after, rfl, hn, hlocal⟩ := ih (by omega) hread
        refine ⟨c :: own, after, rfl, ?_, fun rest hrest => ?_⟩
        · rw [hn, List.length_cons]
          omega
        · rw [List.cons_append, readString]
          · exact hlocal rest hrest
          · exact hquote
          · exact hescape
  · intro cs distance fault hread
    fun_induction readString before count cs with
    | case1 =>
        cases hread
        omega
    | case2 => cases hread
    | case3 =>
        cases hread
        omega
    | case4 before count c more e hescaped ih =>
        have := ih (by omega) hread
        rw [List.length_cons, List.length_cons]
        omega
    | case5 =>
        cases hread
        rw [List.length_cons, List.length_cons]
        omega
    | case6 before count c cs hquote hescape ih =>
        have := ih (by omega) hread
        rw [List.length_cons]
        omega

/-! ## Numbers -/

theorem local_readHex : Local readHex 2 := by
  constructor
  · intro cs kind count hread
    refine ⟨cs.takeWhile Decimal.isHexDigit, cs.dropWhile Decimal.isHexDigit,
      List.takeWhile_append_dropWhile.symm, ?_, ?_⟩
    · unfold readHex at hread
      dsimp only at hread
      split at hread
      · cases hread
        rfl
      · cases hread
    · intro rest hrest
      have hdigits := takeWhile_taken cs fun c hc => Text.isHexDigit_of_isBlank (hrest c hc)
      rw [← hread]
      unfold readHex
      rw [hdigits]
  · intro cs distance fault hread
    unfold readHex at hread
    dsimp only at hread
    split at hread
    · cases hread
    · cases hread
      omega

theorem fraction_of_head? {cs : List Char} (h : cs.head? ≠ some '.') : fraction cs = [] := by
  unfold fraction
  split
  · exact absurd rfl h
  · rfl

/-- Decimal places begin with a point.  They are read again in front of what is neither a point nor
a digit. -/
theorem exists_of_fraction (cs : List Char) : ∃ places after, fraction cs = places ∧
    cs = places ++ after ∧ (∀ c ∈ places.head?, c = '.') ∧
      ∀ rest : List Char, rest.head? ≠ some '.' → (∀ c ∈ rest.head?, Decimal.isDigit c = false) →
        fraction (places ++ rest) = places := by
  have hnone : ∃ places after, [] = places ∧ cs = places ++ after ∧ (∀ c ∈ places.head?, c = '.') ∧
      ∀ rest : List Char, rest.head? ≠ some '.' → (∀ c ∈ rest.head?, Decimal.isDigit c = false) →
        fraction (places ++ rest) = places :=
    ⟨[], cs, rfl, rfl, by simp, fun rest hpoint _ => fraction_of_head? hpoint⟩
  unfold fraction
  split
  · rename_i more
    dsimp only
    split
    · exact hnone
    · rename_i hdigits
      refine ⟨'.' :: more.takeWhile Decimal.isDigit, more.dropWhile Decimal.isDigit, rfl,
        ?_, ?_, ?_⟩
      · rw [List.cons_append, List.takeWhile_append_dropWhile]
      · rintro c ⟨⟩
        rfl
      · intro rest _ hrest
        simp only [List.cons_append, takeWhile_taken more hrest, if_neg hdigits]
  · exact hnone

theorem exponent_of_head? {cs : List Char} (h : cs.head? ≠ some 'e') (h' : cs.head? ≠ some 'E') :
    exponent cs = [] := by
  cases cs with
  | nil => rfl
  | cons c cs =>
      rw [exponent, if_neg]
      simpa using ⟨fun hc => h (congrArg some hc), fun hc => h' (congrArg some hc)⟩

def isSign (c : Char) : Bool :=
  c == '+' || c == '-'

/-- A sign in front of a text, or none where the text does not begin with one. -/
def Signed (sign more : List Char) : Prop :=
  (∃ s, sign = [s] ∧ isSign s = true) ∨ sign = [] ∧ ∀ c ∈ more.head?, isSign c = false

theorem exists_signed (cs : List Char) : ∃ sign more, cs = sign ++ more ∧ Signed sign more := by
  cases cs with
  | nil => exact ⟨[], [], rfl, .inr ⟨rfl, by simp⟩⟩
  | cons c cs =>
      cases hc : isSign c with
      | true => exact ⟨[c], cs, rfl, .inl ⟨c, rfl, hc⟩⟩
      | false => exact ⟨[], c :: cs, rfl, .inr ⟨rfl, by simpa using hc⟩⟩

namespace Signed

variable {sign more more' : List Char}

theorem of_head? (h : Signed sign more) (hhead : more'.head? = more.head?) : Signed sign more' := by
  rcases h with hsign | ⟨hsign, hmore⟩
  · exact .inl hsign
  · exact .inr ⟨hsign, hhead ▸ hmore⟩

theorem filter_take (h : Signed sign more) : ((sign ++ more).take 1).filter isSign = sign := by
  rcases h with ⟨s, rfl, hs⟩ | ⟨rfl, hmore⟩
  · simp [hs]
  · cases more with
    | nil => rfl
    | cons c more => simp [hmore c rfl]

theorem exponent_eq (h : Signed sign more) {e : Char} (he : (e == 'e' || e == 'E') = true) :
    exponent (e :: (sign ++ more)) =
      if (more.takeWhile Decimal.isDigit).isEmpty then []
      else e :: sign ++ more.takeWhile Decimal.isDigit := by
  have hsign : ((sign ++ more).take 1).filter (fun c => c == '+' || c == '-') = sign :=
    h.filter_take
  simp only [exponent, if_pos he, hsign, List.drop_left]

end Signed

theorem exists_of_exponent (cs : List Char) : ∃ power after, exponent cs = power ∧
    cs = power ++ after ∧ (∀ c ∈ power.head?, c = 'e' ∨ c = 'E') ∧
      ∀ rest, Ends rest → exponent (power ++ rest) = power := by
  have hnone : ∃ power after, [] = power ∧ cs = power ++ after ∧
      (∀ c ∈ power.head?, c = 'e' ∨ c = 'E') ∧
        ∀ rest, Ends rest → exponent (power ++ rest) = power := by
    refine ⟨[], cs, rfl, rfl, by simp, fun rest hrest => exponent_of_head? ?_ ?_⟩
    · exact hrest.head?_ne (by decide)
    · exact hrest.head?_ne (by decide)
  cases cs with
  | nil => exact hnone
  | cons e cs =>
      by_cases he : (e == 'e' || e == 'E') = true
      · obtain ⟨sign, more, rfl, hsigned⟩ := exists_signed cs
        rw [hsigned.exponent_eq he]
        split
        · exact hnone
        · rename_i hdigits
          refine ⟨_, more.dropWhile Decimal.isDigit, rfl, ?_, ?_, fun rest hrest => ?_⟩
          · simp [List.takeWhile_append_dropWhile]
          · rintro c ⟨⟩
            simpa using he
          · have hhead : (more.takeWhile Decimal.isDigit ++ rest).head? = more.head? := by
              obtain ⟨d, ds, hds⟩ := List.exists_cons_of_ne_nil (mt List.isEmpty_iff.mpr hdigits)
              have hmore := List.takeWhile_append_dropWhile (p := Decimal.isDigit) (l := more)
              rw [hds] at hmore ⊢
              rw [← hmore]
              rfl
            have htaken := takeWhile_taken more fun c hc => Text.isDigit_of_isBlank (hrest c hc)
            have hread := (hsigned.of_head? hhead).exponent_eq he
            rw [htaken, if_neg hdigits] at hread
            simpa using hread
      · rw [exponent, if_neg he]
        exact hnone

/-- The parts of a number that is not hexadecimal, as they are read off a text. -/
structure Parts (cs whole places power : List Char) : Prop where
  whole_eq : cs.takeWhile Decimal.isDigit = whole
  places_eq : fraction (cs.drop whole.length) = places
  power_eq : exponent (cs.drop (whole.length + places.length)) = power

namespace Parts

variable {cs cs' whole places power : List Char}

theorem readDecimal_eq (h : Parts cs whole places power) (h' : Parts cs' whole places power) :
    readDecimal cs' = readDecimal cs := by
  simp only [readDecimal, h.whole_eq, h.places_eq, h.power_eq, h'.whole_eq, h'.places_eq,
    h'.power_eq]

theorem readDecimal_cases (h : Parts cs whole places power) :
    (∃ kind, readDecimal cs = .ok (kind, (whole ++ places ++ power).length)) ∨
      ∃ fault, readDecimal cs = .error (0, fault) := by
  simp only [readDecimal, h.whole_eq, h.places_eq, h.power_eq]
  split
  · split
    · exact .inl ⟨_, rfl⟩
    · exact .inr ⟨_, rfl⟩
  · split
    · exact .inl ⟨_, rfl⟩
    · exact .inr ⟨_, rfl⟩

end Parts

theorem forall_head?_append {p : Char → Prop} {cs ds : List Char} (h : ∀ c ∈ cs.head?, p c)
    (h' : ∀ c ∈ ds.head?, p c) : ∀ c ∈ (cs ++ ds).head?, p c := by
  cases cs with
  | nil => exact h'
  | cons c cs => exact h

/-- The parts of a number stand one after the other, and they are its parts in front of a blank or
the end. -/
theorem exists_parts (cs : List Char) : ∃ whole places power after,
    Parts cs whole places power ∧ cs = whole ++ places ++ power ++ after ∧
      ∀ rest, Ends rest → Parts (whole ++ places ++ power ++ rest) whole places power := by
  obtain ⟨whole, hwhole⟩ : ∃ whole, cs.takeWhile Decimal.isDigit = whole := ⟨_, rfl⟩
  obtain ⟨tail, htail⟩ : ∃ tail, cs = whole ++ tail := by
    rw [← hwhole]
    exact ⟨_, List.takeWhile_append_dropWhile.symm⟩
  obtain ⟨places, tail', hplaces, rfl, hpoint, hagain⟩ := exists_of_fraction tail
  obtain ⟨power, after, hpower, rfl, hmark, hagain'⟩ := exists_of_exponent tail'
  have hdrop (rest : List Char) :
      (whole ++ (places ++ rest)).drop (whole.length + places.length) = rest := by
    rw [← List.append_assoc, ← List.length_append, List.drop_left]
  refine ⟨whole, places, power, after, ⟨hwhole, ?_, ?_⟩, by simpa using htail, ?_⟩
  · rw [htail, List.drop_left, hplaces]
  · rw [htail, hdrop, hpower]
  intro rest hrest
  -- no part goes on where the next one begins
  have hnext : ∀ c ∈ (power ++ rest).head?, c ≠ '.' ∧ Decimal.isDigit c = false := by
    refine forall_head?_append (fun c hc => ?_) fun c hc => ?_
    · rcases hmark c hc with rfl | rfl
      · decide
      · decide
    · exact ⟨Text.ne_of_isBlank (hrest c hc) (by decide), Text.isDigit_of_isBlank (hrest c hc)⟩
  have hnext' : ∀ c ∈ (places ++ (power ++ rest)).head?, Decimal.isDigit c = false := by
    refine forall_head?_append (fun c hc => ?_) fun c hc => (hnext c hc).2
    rw [hpoint c hc]
    decide
  rw [List.append_assoc, List.append_assoc]
  refine ⟨?_, ?_, ?_⟩
  · exact takeWhile_of_head? (fun c hc => List.mem_takeWhile_imp (hwhole ▸ hc)) hnext'
  · rw [List.drop_left]
    exact hagain _ (fun hhead => (hnext '.' hhead).1 rfl) fun c hc => (hnext c hc).2
  · rw [hdrop]
    exact hagain' rest hrest

/-- Whether a character after `0` begins a hexadecimal number. -/
def isHexMark (x : Char) : Bool :=
  x == 'x' || x == 'X'

theorem readNumber_of_isHexMark {x : Char} (hx : isHexMark x = true) (rest : List Char) :
    readNumber ('0' :: x :: rest) = readHex rest := by
  rcases Bool.or_eq_true_iff.mp hx with hx | hx
  · rw [beq_iff_eq.mp hx, readNumber]
  · rw [beq_iff_eq.mp hx, readNumber]

theorem readNumber_of_head? {c : Char} {rest : List Char}
    (h : c = '0' → ∀ x ∈ rest.head?, isHexMark x = false) :
    readNumber (c :: rest) = readDecimal (c :: rest) := by
  rw [readNumber]
  · rintro more hcs
    cases hcs
    cases h rfl 'x' rfl
  · rintro more hcs
    cases hcs
    cases h rfl 'X' rfl

theorem local_readNumber {c : Char} (hc : Decimal.isDigit c = true) :
    Local (fun rest => readNumber (c :: rest)) 1 := by
  have hcases (cs : List Char) : (c = '0' ∧ ∃ x more, cs = x :: more ∧ isHexMark x = true) ∨
      (c = '0' → ∀ x ∈ cs.head?, isHexMark x = false) := by
    cases cs with
    | nil => exact .inr fun _ x hx => by cases hx
    | cons x more =>
        cases hx : isHexMark x with
        | false => exact .inr fun _ y hy => by cases hy; exact hx
        | true =>
            by_cases hzero : c = '0'
            · exact .inl ⟨hzero, x, more, rfl, hx⟩
            · exact .inr fun h => absurd h hzero
  constructor
  · intro cs kind count hread
    rcases hcases cs with ⟨rfl, x, more, rfl, hx⟩ | hdecimal
    · rw [readNumber_of_isHexMark hx] at hread
      obtain ⟨own, after, rfl, hcount, hlocal⟩ := local_readHex.token hread
      refine ⟨x :: own, after, rfl, hcount, fun rest hrest => ?_⟩
      rw [List.cons_append, readNumber_of_isHexMark hx]
      exact hlocal rest hrest
    · rw [readNumber_of_head? hdecimal] at hread
      obtain ⟨whole, places, power, after, hparts, hcs, hagain⟩ := exists_parts (c :: cs)
      obtain ⟨more, rfl⟩ : ∃ more, whole = c :: more := by
        rw [← hparts.whole_eq, List.takeWhile_cons_of_pos hc]
        exact ⟨_, rfl⟩
      have hcs' : cs = more ++ places ++ power ++ after := (List.cons.inj hcs).2
      refine ⟨more ++ places ++ power, after, hcs', ?_, fun rest hrest => ?_⟩
      · rcases hparts.readDecimal_cases with ⟨kind', htoken⟩ | ⟨fault, hfault⟩
        · cases hread.symm.trans htoken
          rfl
        · cases hread.symm.trans hfault
      · have hnot : c = '0' → ∀ x ∈ (more ++ places ++ power ++ rest).head?,
            isHexMark x = false := by
          intro hzero
          refine forall_head?_append (fun x hx => hdecimal hzero x ?_) fun x hx => ?_
          · rw [hcs', List.head?_append, hx]
            rfl
          · exact Text.forall_of_isBlank (p := fun x => isHexMark x = false) (by decide)
              (hrest x hx)
        rw [readNumber_of_head? hnot, ← hread]
        exact hparts.readDecimal_eq (hagain rest hrest)
  · intro cs distance fault hread
    rcases hcases cs with ⟨rfl, x, more, rfl, hx⟩ | hdecimal
    · rw [readNumber_of_isHexMark hx] at hread
      exact local_readHex.fault hread
    · rw [readNumber_of_head? hdecimal] at hread
      obtain ⟨whole, places, power, after, hparts, -, -⟩ := exists_parts (c :: cs)
      rcases hparts.readDecimal_cases with ⟨kind, htoken⟩ | ⟨fault', hfault⟩
      · cases hread.symm.trans htoken
      · cases hread.symm.trans hfault
        omega

/-! ## Names -/

/-- The characters of a name after the first: all that can belong to it, without dots at the end. -/
def nameTail (rest : List Char) : List Char :=
  (rest.takeWhile Text.isNamePart).rdropWhile (· == '.')

theorem nameFrom_eq_cons (c : Char) (rest : List Char) : nameFrom c rest = c :: nameTail rest :=
  rfl

theorem nameTail_isPrefix (rest : List Char) : nameTail rest <+: rest :=
  (List.rdropWhile_prefix _ _).trans (List.takeWhile_prefix _)

theorem nameTail_append (cs : List Char) {rest : List Char} (h : Ends rest) :
    nameTail (nameTail cs ++ rest) = nameTail cs := by
  have hparts : ∀ d ∈ nameTail cs, Text.isNamePart d = true := by
    intro d hd
    exact List.mem_takeWhile_imp ((List.rdropWhile_prefix _ _).subset hd)
  have htaken : (nameTail cs ++ rest).takeWhile Text.isNamePart = nameTail cs :=
    takeWhile_of_head? hparts fun d hd => Text.isNamePart_of_isBlank (h d hd)
  rw [nameTail, htaken]
  exact List.rdropWhile_idempotent _ _

theorem local_nameFrom (c : Char) :
    Local (fun rest => .ok (ofWord (String.ofList (nameFrom c rest)), (nameFrom c rest).length))
      1 := by
  constructor
  · intro cs kind count hread
    cases hread
    obtain ⟨after, hafter⟩ := nameTail_isPrefix cs
    refine ⟨nameTail cs, after, hafter.symm, rfl, fun rest hrest => ?_⟩
    rw [nameFrom_eq_cons, nameTail_append cs hrest, nameFrom_eq_cons]
  · intro cs distance fault hread
    cases hread

/-! ## Tokens -/

theorem local_readFrom (c : Char) : Local (readFrom c) 1 := by
  have hpair {second : Char} (both : Mark) (alone : Except ParseFault Mark)
      (hsecond : Text.isBlank second = false) : Local (pair second both alone) 1 :=
    local_pair both alone hsecond
  unfold readFrom
  cases single? c with
  | some m => exact .whole _
  | none =>
      -- the marks of two characters, strings, numbers and names, in their order
      refine .ite (fun _ => hpair _ _ (by decide)) fun _ => ?_
      refine .ite (fun _ => hpair _ _ (by decide)) fun _ => ?_
      refine .ite (fun _ => hpair _ _ (by decide)) fun _ => ?_
      refine .ite (fun _ => hpair _ _ (by decide)) fun _ => ?_
      refine .ite (fun _ => hpair _ _ (by decide)) fun _ => ?_
      refine .ite (fun _ => hpair _ _ (by decide)) fun _ => ?_
      refine .ite (fun _ => local_readString [] Nat.one_pos) fun _ => ?_
      refine .ite (fun hdigit => local_readNumber hdigit) fun _ => ?_
      exact .ite (fun _ => local_nameFrom c) fun _ => .failing Nat.one_pos _

/-- The characters of a token: read alone, they give the token, and all of them belong to it. -/
def Lexeme (kind : TokenKind) (cs : List Char) : Prop :=
  ∃ c more, cs = c :: more ∧ Text.isBlank c = false ∧ readFrom c more = .ok (kind, more.length + 1)

theorem exists_lexeme {c : Char} {rest : List Char} {kind : TokenKind} {count : Nat}
    (hblank : Text.isBlank c = false) (hread : readFrom c rest = .ok (kind, count)) :
    ∃ own after, rest = own ++ after ∧ count = own.length + 1 ∧ Lexeme kind (c :: own) := by
  obtain ⟨own, after, rfl, hcount, hlocal⟩ := (local_readFrom c).token hread
  have halone := hlocal [] .nil
  rw [List.append_nil, hcount] at halone
  exact ⟨own, after, rfl, hcount, c, own, rfl, hblank, halone⟩

theorem scanFrom_blanks {blanks : List Char} (h : ∀ c ∈ blanks, Text.isBlank c = true)
    (position : Nat) (rest : List Char) :
    scanFrom position (blanks ++ rest) = scanFrom (position + blanks.length) rest := by
  induction blanks generalizing position with
  | nil => rfl
  | cons c blanks ih =>
      obtain ⟨hc, hblanks⟩ := List.forall_mem_cons.mp h
      rw [List.cons_append, scanFrom_blank hc, ih hblanks, List.length_cons, Nat.add_assoc,
        Nat.add_comm 1]

/-- The characters of a token are read as this token where it has ended. -/
theorem Lexeme.scanFrom_append {kind : TokenKind} {cs rest : List Char} (h : Lexeme kind cs)
    (hrest : Ends rest) (position : Nat) :
    scanFrom position (cs ++ rest) =
      (scanFrom (position + cs.length) rest).map fun ts =>
        { ts with items := ⟨kind, position⟩ :: ts.items } := by
  obtain ⟨c, more, rfl, hblank, hread⟩ := h
  obtain ⟨own, after, hmore, hcount, hlocal⟩ := (local_readFrom c).token hread
  have hown : own = more := by
    refine List.IsPrefix.eq_of_length ⟨after, hmore.symm⟩ ?_
    omega
  subst hown
  rw [List.cons_append, scanFrom_of_read hblank (hlocal rest hrest), Nat.add_sub_cancel,
    List.drop_left, Nat.max_eq_right (Nat.le_add_left 1 _), List.length_cons]

end Token

end Preprocessor
