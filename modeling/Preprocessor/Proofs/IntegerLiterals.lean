/-
Integers that are written outside of expressions.

A text stands for an integer if, without the blanks at its ends, it is decimal digits with an
optional sign, or hexadecimal digits after their mark, and the value fits into 64 bits.  The only
other texts that are read as integers have a sign between the hexadecimal mark and the digits.
-/
import Preprocessor.Proofs.TokenRendering
import Preprocessor.Value.Literal

namespace Preprocessor

/-! ## Digits with a sign -/

namespace Decimal

/-- `SignedSpells base cs n`: a row of digits, with a sign in front or without, has a value. -/
inductive SignedSpells (base : Nat) : List Char → Int → Prop
  | bare {cs : List Char} {n : Nat} : Spells base cs n → SignedSpells base cs n
  | plus {cs : List Char} {n : Nat} : Spells base cs n → SignedSpells base ('+' :: cs) n
  | minus {cs : List Char} {n : Nat} : Spells base cs n → SignedSpells base ('-' :: cs) (-n)

theorem int64?_eq_some_iff {n : Int} {k : Int64} : int64? n = some k ↔ k.toInt = n := by
  by_cases hfits : Fits n
  · obtain ⟨j, hj, hvalue⟩ := int64?_of_fits hfits
    rw [hj, Option.some_inj, ← hvalue, Int64.toInt_inj]
    exact eq_comm
  · rw [int64?_of_not_fits hfits]
    refine iff_of_false (by simp) ?_
    rintro rfl
    exact hfits (fits_toInt k)

theorem splitSign_cases (cs : List Char) :
    (∃ ds, cs = '-' :: ds ∧ splitSign cs = (true, ds)) ∨
      (∃ ds, cs = '+' :: ds ∧ splitSign cs = (false, ds)) ∨ splitSign cs = (false, cs) := by
  unfold splitSign
  split
  · exact .inl ⟨_, rfl, rfl⟩
  · exact .inr (.inl ⟨_, rfl, rfl⟩)
  · exact .inr (.inr rfl)

section

variable {base : Nat} (hbase : base = 10 ∨ base = 16) {cs : List Char} {n : Nat} {k : Int64}

include hbase

theorem digitOf_of_digit? {c : Char} {d : Nat} (h : digit? base c = some d) : DigitOf base c d := by
  have hsmall : c.toNat < 103 := by
    simp only [digit?, Option.ite_none_right_eq_some, Bool.and_eq_true, decide_eq_true_eq] at h
    grind
  have hall : ∀ base ∈ [10, 16], ∀ m < 103, ∀ d ∈ digit? base (Char.ofNat m),
      d < base ∧ (Char.ofNat m = d.digitChar ∨ Char.ofNat m = d.digitChar.toUpper) := by
    decide +kernel
  have hc := hall base (by simpa using hbase) c.toNat hsmall d
  rw [Char.ofNat_toNat] at hc
  exact hc h

theorem digit?_of_isSign {sign : Char} (hsign : Token.isSign sign = true) :
    digit? base sign = none := by
  have hall : ∀ base ∈ [10, 16], digit? base '+' = none ∧ digit? base '-' = none := by decide
  obtain ⟨hplus, hminus⟩ := hall base (by simpa using hbase)
  rcases Bool.or_eq_true_iff.mp hsign with hc | hc
  · rw [beq_iff_eq.mp hc, hplus]
  · rw [beq_iff_eq.mp hc, hminus]

theorem spells_of_digitsFrom {acc : Nat} {ds : List Char} (hacc : Spells base ds acc)
    (h : digitsFrom base acc cs = some n) : Spells base (ds ++ cs) n := by
  induction cs generalizing acc ds with
  | nil =>
      cases h
      rwa [List.append_nil]
  | cons c cs ih =>
      rw [digitsFrom, Option.bind_eq_some_iff] at h
      obtain ⟨d, hd, hrest⟩ := h
      have happend := ih (hacc.append (digitOf_of_digit? hbase hd)) hrest
      rwa [List.append_assoc] at happend

theorem nat?_eq_some_iff : nat? base cs = some n ↔ Spells base cs n := by
  constructor
  · intro h
    cases cs with
    | nil => cases h
    | cons c cs =>
        rw [nat?, if_neg (by simp), digitsFrom, Option.bind_eq_some_iff] at h
        obtain ⟨d, hd, hrest⟩ := h
        rw [Nat.mul_zero, Nat.zero_add] at hrest
        exact spells_of_digitsFrom hbase (.digit (digitOf_of_digit? hbase hd)) hrest
  · intro h
    exact nat?_of_spells hbase h

/-- Digits with an optional sign are read as the integer that has their value, and nothing else is
read. -/
theorem readInt_eq_some_iff : readInt base cs = some k ↔ SignedSpells base cs k.toInt := by
  have hread {negative : Bool} {ds : List Char} (hsign : splitSign cs = (negative, ds)) :
      readInt base cs = some k ↔ ∃ n, Spells base ds n ∧ k.toInt = Double.signed negative n := by
    rw [readInt, hsign]
    simp only [Option.bind_eq_some_iff, nat?_eq_some_iff hbase, int64?_eq_some_iff]
  constructor
  · intro h
    rcases splitSign_cases cs with ⟨ds, rfl, hsign⟩ | ⟨ds, rfl, hsign⟩ | hsign
    · obtain ⟨n, hn, hk⟩ := (hread hsign).mp h
      rw [hk]
      exact .minus hn
    · obtain ⟨n, hn, hk⟩ := (hread hsign).mp h
      rw [hk]
      exact .plus hn
    · obtain ⟨n, hn, hk⟩ := (hread hsign).mp h
      rw [hk]
      exact .bare hn
  · intro h
    generalize hvalue : k.toInt = value at h
    cases h with
    | bare hn => exact readInt_of_spells hbase hn hvalue
    | plus hn => exact (hread rfl).mpr ⟨_, hn, hvalue⟩
    | minus hn => exact (hread rfl).mpr ⟨_, hn, hvalue⟩

end

end Decimal

/-! ## Forms of an integer -/

namespace Value

open Decimal Token

variable {cs : List Char} {s : String} {k : Int64} {n : Int}

/-- `IntegerForm cs n`: a text is written as an integer, in decimal with an optional sign or in
hexadecimal without one. -/
inductive IntegerForm : List Char → Int → Prop
  | decimal {cs : List Char} {n : Int} : SignedSpells 10 cs n → IntegerForm cs n
  | hexadecimal {x : Char} {cs : List Char} {n : Nat} : isHexMark x = true → Spells 16 cs n →
      IntegerForm ('0' :: x :: cs) n

/-- `SignBehindMark cs n`: a text is written in hexadecimal, with a sign between the mark and the
digits. -/
def SignBehindMark (cs : List Char) (n : Int) : Prop :=
  ∃ x sign digits, cs = '0' :: x :: sign :: digits ∧ isHexMark x = true ∧ isSign sign = true ∧
    SignedSpells 16 (sign :: digits) n

theorem readHex_eq_some_iff : readHex cs = some k ↔
    ∃ x digits, cs = '0' :: x :: digits ∧ isHexMark x = true ∧ SignedSpells 16 digits k.toInt := by
  constructor
  · intro h
    unfold readHex at h
    split at h
    · exact ⟨'x', _, rfl, rfl, (readInt_eq_some_iff (.inr rfl)).mp h⟩
    · exact ⟨'X', _, rfl, rfl, (readInt_eq_some_iff (.inr rfl)).mp h⟩
    · cases h
  · rintro ⟨x, digits, rfl, hx, hdigits⟩
    have hread := (readInt_eq_some_iff (.inr rfl)).mpr hdigits
    rcases Bool.or_eq_true_iff.mp hx with hx | hx
    · rwa [beq_iff_eq.mp hx, readHex]
    · rwa [beq_iff_eq.mp hx, readHex]

theorem not_signedSpells_of_isHexMark {x : Char} (hx : isHexMark x = true) :
    ¬ SignedSpells 10 ('0' :: x :: cs) n := by
  intro h
  cases h with
  | bare hdigits =>
      have hdigit := isSome_digit?_of_spells (.inl rfl) hdigits x (by simp)
      rw [isHexMark_of_isDigit hdigit] at hx
      cases hx

theorem integerForm_or_iff : IntegerForm cs n ∨ SignBehindMark cs n ↔
    SignedSpells 10 cs n ∨
      ∃ x digits, cs = '0' :: x :: digits ∧ isHexMark x = true ∧ SignedSpells 16 digits n := by
  constructor
  · rintro (h | ⟨x, sign, digits, rfl, hx, -, hdigits⟩)
    · cases h with
      | decimal hdigits => exact .inl hdigits
      | hexadecimal hx hdigits => exact .inr ⟨_, _, rfl, hx, .bare hdigits⟩
    · exact .inr ⟨x, sign :: digits, rfl, hx, hdigits⟩
  · rintro (h | ⟨x, digits, rfl, hx, hdigits⟩)
    · exact .inl (.decimal h)
    · cases hdigits with
      | bare hbare => exact .inl (.hexadecimal hx hbare)
      | plus hplus => exact .inr ⟨x, '+', _, rfl, hx, rfl, .plus hplus⟩
      | minus hminus => exact .inr ⟨x, '-', _, rfl, hx, rfl, .minus hminus⟩

theorem not_integerForm_of_isSign {x sign : Char} (hx : isHexMark x = true)
    (hsign : isSign sign = true) : ¬ IntegerForm ('0' :: x :: sign :: cs) n := by
  intro h
  cases h with
  | decimal hdigits => exact not_signedSpells_of_isHexMark hx hdigits
  | hexadecimal _ hdigits =>
      have hdigit := isSome_digit?_of_spells (.inr rfl) hdigits sign List.mem_cons_self
      rw [digit?_of_isSign (.inr rfl) hsign] at hdigit
      cases hdigit

/-! ## Reading a literal -/

theorem readHex_of_readInt (h : readInt 10 cs = some k) : readHex cs = none := by
  cases hhex : readHex cs with
  | none => rfl
  | some j =>
      obtain ⟨x, digits, rfl, hx, -⟩ := readHex_eq_some_iff.mp hhex
      exact absurd ((readInt_eq_some_iff (.inl rfl)).mp h) (not_signedSpells_of_isHexMark hx)

theorem ofLiteral_eq_int_iff_read : ofLiteral s = .int k ↔
    readHex (Text.trim s.toList) = some k ∨ readInt 10 (Text.trim s.toList) = some k := by
  -- the words for truth values are tried first and are no integers
  have hword {w : List Char} {b : Bool} (hhex : readHex w = none) (hint : readInt 10 w = none) :
      Value.bool b = .int k ↔ readHex w = some k ∨ readInt 10 w = some k := by
    simp [hhex, hint]
  unfold ofLiteral
  dsimp only
  generalize Text.trim s.toList = cs
  by_cases htrue : cs = ['t', 'r', 'u', 'e']
  · rw [htrue, if_pos (by decide)]
    exact hword rfl rfl
  by_cases hfalse : cs = ['f', 'a', 'l', 's', 'e']
  · rw [hfalse, if_neg (by decide), if_pos (by decide)]
    exact hword rfl rfl
  rw [if_neg (by simpa using htrue), if_neg (by simpa using hfalse)]
  cases hhex : readHex cs with
  | some j =>
      have hint : readInt 10 cs ≠ some k := by
        intro hint
        rw [readHex_of_readInt hint] at hhex
        cases hhex
      simp [hint]
  | none =>
      cases hint : readInt 10 cs with
      | some j => simp
      | none =>
          simp only [reduceCtorEq, or_self, iff_false]
          split
          · simp
          · simp

/-- A literal is an integer exactly if it has one of the forms that are read as integers. -/
theorem ofLiteral_eq_int_iff_forms : ofLiteral s = .int k ↔
    IntegerForm (Text.trim s.toList) k.toInt ∨ SignBehindMark (Text.trim s.toList) k.toInt := by
  rw [ofLiteral_eq_int_iff_read, integerForm_or_iff, readHex_eq_some_iff,
    readInt_eq_some_iff (.inl rfl)]
  exact or_comm

/-- When a text is an integer.  It is read as one exactly if, without the blanks at its ends, it is
written as an integer of 64 bits or has a sign behind the hexadecimal mark.  So the texts that are
read as an integer without being written as one are those with a sign behind the mark. -/
theorem ofLiteral_eq_int_iff (s : String) (k : Int64) :
    (ofLiteral s = .int k ↔ IntegerForm (Text.trim s.toList) k.toInt ∨
      SignBehindMark (Text.trim s.toList) k.toInt) ∧
    ((ofLiteral s = .int k ↔ IntegerForm (Text.trim s.toList) k.toInt) ↔
      ¬ SignBehindMark (Text.trim s.toList) k.toInt) := by
  refine ⟨ofLiteral_eq_int_iff_forms, ?_⟩
  rw [ofLiteral_eq_int_iff_forms]
  constructor
  · intro hwritten hsigned
    have hform := hwritten.mp (.inr hsigned)
    obtain ⟨x, sign, digits, hcs, hx, hsign, -⟩ := hsigned
    rw [hcs] at hform
    exact not_integerForm_of_isSign hx hsign hform
  · intro hsigned
    exact or_iff_left hsigned

/-- A sign behind the hexadecimal mark: the text is read as an integer and is not written as one. -/
theorem ofLiteral_signBehindMark : ofLiteral "0x-1F" = .int (-31) ∧
    ¬ IntegerForm (Text.trim "0x-1F".toList) (-31) := by
  have htrim : Text.trim "0x-1F".toList = ['0', 'x', '-', '1', 'F'] := by decide +kernel
  have hread : readHex ['0', 'x', '-', '1', 'F'] = some (-31) := by decide +kernel
  refine ⟨ofLiteral_eq_int_iff_read.mpr (.inl (by rw [htrim, hread])), ?_⟩
  rw [htrim]
  exact not_integerForm_of_isSign rfl rfl

end Value

end Preprocessor
