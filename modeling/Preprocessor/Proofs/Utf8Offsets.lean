/-
Where bytes stop being UTF-8.

Bytes that cannot be read are reported with an offset.  What was read before it is UTF-8, and no
longer piece from the beginning is.  A byte order mark is taken away before the bytes are read, and
the offset counts from behind it: it is an offset into the file exactly if the file has no mark.
-/
import Preprocessor.Proofs.EncodingRoundTrip

namespace Preprocessor

namespace Encoding

variable {bytes rest : List UInt8} {c : Char} {k n : Nat}

/-! ## The longest piece that is UTF-8 -/

/-- `ValidUpTo bytes k`: the first `k` bytes are UTF-8, and no longer piece from the beginning
is. -/
structure ValidUpTo (bytes : List UInt8) (k : Nat) : Prop where
  le : k ≤ bytes.length
  valid : (bytes.take k).toByteArray.IsValidUTF8
  longest : ∀ j ≤ bytes.length, (bytes.take j).toByteArray.IsValidUTF8 → j ≤ k

theorem isValidUTF8_iff :
    bytes.toByteArray.IsValidUTF8 ↔ ∃ cs : List Char, bytes = cs.flatMap String.utf8EncodeChar := by
  constructor
  · rintro ⟨cs, hcs⟩
    exact ⟨cs, List.toByteArray_inj.mp hcs⟩
  · rintro ⟨cs, rfl⟩
    exact ⟨cs, rfl⟩

theorem ValidUpTo.unique (h : ValidUpTo bytes k) (h' : ValidUpTo bytes n) : k = n :=
  Nat.le_antisymm (h'.longest k h.le h.valid) (h.longest n h'.le h'.valid)

/-- All of the bytes are UTF-8 exactly if the longest piece is all of them. -/
theorem ValidUpTo.isValidUTF8_iff (h : ValidUpTo bytes k) :
    bytes.toByteArray.IsValidUTF8 ↔ k = bytes.length := by
  constructor
  · intro hvalid
    refine Nat.le_antisymm h.le (h.longest _ (Nat.le_refl _) ?_)
    rwa [List.take_length]
  · rintro rfl
    have hvalid := h.valid
    rwa [List.take_length] at hvalid

theorem exists_decodeChar_of_take {j : Nat} (hj : j ≤ bytes.length) (hpos : 0 < j)
    (h : (bytes.take j).toByteArray.IsValidUTF8) :
    ∃ (c : Char) (cs : List Char),
      decodeChar bytes = some (c, cs.flatMap String.utf8EncodeChar ++ bytes.drop j) ∧
        j = (String.utf8EncodeChar c).length + (cs.flatMap String.utf8EncodeChar).length := by
  obtain ⟨cs, hcs⟩ := Encoding.isValidUTF8_iff.mp h
  have hlength := congrArg List.length hcs
  rw [List.length_take, Nat.min_eq_left hj] at hlength
  cases cs with
  | nil => simp at hlength; omega
  | cons c cs =>
      rw [List.flatMap_cons] at hcs hlength
      refine ⟨c, cs, ?_, by rw [hlength, List.length_append]⟩
      rw [← decodeChar_append c, ← List.append_assoc, ← hcs, List.take_append_drop]

theorem validUpTo_zero (h : decodeChar bytes = none) : ValidUpTo bytes 0 where
  le := Nat.zero_le _
  valid := isValidUTF8_iff.mpr ⟨[], rfl⟩
  longest := by
    intro j hj hvalid
    by_contra hpos
    obtain ⟨c, cs, hchar, -⟩ := exists_decodeChar_of_take hj (by omega) hvalid
    cases h.symm.trans hchar

theorem ValidUpTo.append (h : ValidUpTo rest k) (c : Char) :
    ValidUpTo (String.utf8EncodeChar c ++ rest) ((String.utf8EncodeChar c).length + k) where
  le := by
    have := h.le
    rw [List.length_append]
    omega
  valid := by
    obtain ⟨cs, hcs⟩ := Encoding.isValidUTF8_iff.mp h.valid
    refine Encoding.isValidUTF8_iff.mpr ⟨c :: cs, ?_⟩
    rw [List.take_length_add_append, hcs, List.flatMap_cons]
  longest := by
    intro j hj hvalid
    by_cases hpos : 0 < j
    · -- both pieces begin with the same character
      obtain ⟨d, cs, hchar, rfl⟩ := exists_decodeChar_of_take hj hpos hvalid
      rw [decodeChar_append] at hchar
      obtain ⟨rfl, hrest⟩ := Prod.mk.inj (Option.some.inj hchar)
      have htake : rest.take (cs.flatMap String.utf8EncodeChar).length =
          cs.flatMap String.utf8EncodeChar := by
        rw [hrest, List.take_left]
      have hle := h.longest (cs.flatMap String.utf8EncodeChar).length
        (by rw [hrest, List.length_append]; omega)
        (Encoding.isValidUTF8_iff.mpr ⟨cs, htake⟩)
      omega
    · omega

/-! ## The offset of a fault -/

theorem exists_of_decodeFrom_error {offset : Nat} {before : List Char} {err : EncodingError}
    (h : decodeFrom offset before bytes = .error err) :
    ∃ k < bytes.length, err = .invalidUtf8 (offset + k) ∧ ValidUpTo bytes k := by
  fun_induction decodeFrom offset before bytes with
  | case1 => cases h
  | case2 offset before bytes hnonempty hchar =>
      cases h
      refine ⟨0, ?_, rfl, validUpTo_zero hchar⟩
      exact List.length_pos_iff.mpr (mt List.isEmpty_iff.mpr hnonempty)
  | case3 offset before bytes hnonempty c rest hchar ih =>
      obtain ⟨k, hk, rfl, hvalid⟩ := ih h
      obtain rfl := eq_of_decodeChar hchar
      refine ⟨(String.utf8EncodeChar c).length + k, ?_, ?_, hvalid.append c⟩
      · rw [List.length_append]
        omega
      · rw [String.length_utf8EncodeChar, Nat.add_assoc]

/-- The number of bytes of the byte order mark that a file starts with. -/
def markLength (bytes : List UInt8) : Nat :=
  if bomBytes <+: bytes then bomBytes.length else 0

/-- A file is a mark and what is decoded behind it, or has no mark and is decoded as a whole. -/
theorem decode_cases (bytes : List UInt8) : ∃ mark rest bom, bytes = mark ++ rest ∧
    utf8.decode bytes = (decodeFrom 0 [] rest).map (Decoded.mk · bom) ∧
      (mark = bomBytes ∨ mark = [] ∧ ¬ bomBytes <+: bytes) := by
  unfold decode
  dsimp only
  split
  · rename_i rest
    exact ⟨bomBytes, rest, true, rfl, rfl, .inl rfl⟩
  · rename_i hnone
    refine ⟨[], bytes, false, rfl, rfl, .inr ⟨rfl, ?_⟩⟩
    rintro ⟨rest, rfl⟩
    exact hnone rest rfl

theorem exists_of_decode_error {err : EncodingError} (h : utf8.decode bytes = .error err) :
    ∃ k, err = .invalidUtf8 k ∧ markLength bytes + k < bytes.length ∧
      ValidUpTo bytes (markLength bytes + k) := by
  obtain ⟨mark, rest, bom, rfl, hdecode, hmark⟩ := decode_cases bytes
  obtain ⟨k, hk, rfl, hvalid⟩ : ∃ k < rest.length, err = .invalidUtf8 k ∧ ValidUpTo rest k := by
    rw [hdecode] at h
    cases hrest : decodeFrom 0 [] rest with
    | ok s =>
        rw [hrest] at h
        cases h
    | error err' =>
        rw [hrest] at h
        cases h
        simpa using exists_of_decodeFrom_error hrest
  rcases hmark with rfl | ⟨rfl, hnone⟩
  · have hlength : markLength (bomBytes ++ rest) = bomBytes.length :=
      if_pos (List.prefix_append _ _)
    have hwhole := hvalid.append '\uFEFF'
    rw [utf8EncodeChar_mark] at hwhole
    refine ⟨k, rfl, ?_, by rwa [hlength]⟩
    rw [hlength, List.length_append]
    omega
  · have hlength : markLength ([] ++ rest) = 0 := if_neg hnone
    refine ⟨k, rfl, ?_, ?_⟩
    · rwa [hlength, Nat.zero_add]
    · rwa [hlength, Nat.zero_add]

theorem isValidUTF8_of_decode {decoded : Decoded} (h : utf8.decode bytes = .ok decoded) :
    bytes.toByteArray.IsValidUTF8 := by
  obtain ⟨mark, rest, bom, rfl, hdecode, hmark⟩ := decode_cases bytes
  rw [hdecode] at h
  obtain ⟨s, hrest, -⟩ := exists_of_map_eq_ok h
  obtain ⟨cs, -, rfl⟩ := exists_of_decodeFrom hrest
  rcases hmark with rfl | ⟨rfl, -⟩
  · exact isValidUTF8_iff.mpr ⟨'\uFEFF' :: cs, by rw [List.flatMap_cons, utf8EncodeChar_mark]⟩
  · exact isValidUTF8_iff.mpr ⟨cs, rfl⟩

/-! ## What the message says -/

/-- Reading the bytes as UTF-8 fails, and the message says that it does so at byte `k`. -/
def FailsAt (bytes : List UInt8) (k : Nat) : Prop :=
  (utf8.decode bytes).mapError EncodingError.message =
    .error ("invalid utf-8 at byte " ++ toString k)

theorem failsAt_iff_of_error (h : utf8.decode bytes = .error (.invalidUtf8 n)) :
    FailsAt bytes k ↔ n = k := by
  have hmessage : (utf8.decode bytes).mapError EncodingError.message =
      .error ("invalid utf-8 at byte " ++ toString n) := by
    rw [h]
    rfl
  rw [FailsAt, hmessage, Except.error.injEq, String.append_right_inj]
  constructor
  · intro hdigits
    have hlist : Nat.toDigits 10 n = Nat.toDigits 10 k := by
      simpa using congrArg String.toList hdigits
    rw [← Nat.ofDigitChars_ten_toDigits (n := n), hlist, Nat.ofDigitChars_ten_toDigits]
  · rintro rfl
    rfl

/-- The offset counts from behind the mark. -/
theorem failsAt_iff_validUpTo :
    FailsAt bytes k ↔
      ¬ bytes.toByteArray.IsValidUTF8 ∧ ValidUpTo bytes (markLength bytes + k) := by
  cases hdecode : utf8.decode bytes with
  | ok decoded =>
      refine iff_of_false ?_ fun h => h.1 (isValidUTF8_of_decode hdecode)
      intro hfails
      rw [FailsAt, hdecode] at hfails
      cases hfails
  | error err =>
      obtain ⟨n, rfl, hlt, hvalid⟩ := exists_of_decode_error hdecode
      rw [failsAt_iff_of_error hdecode]
      constructor
      · rintro rfl
        exact ⟨fun hall => Nat.ne_of_lt hlt (hvalid.isValidUTF8_iff.mp hall), hvalid⟩
      · rintro ⟨-, hvalid'⟩
        have := hvalid.unique hvalid'
        omega

theorem markLength_eq_zero_iff : markLength bytes = 0 ↔ ¬ bomBytes <+: bytes := by
  rw [markLength]
  split <;> simp_all [bomBytes]

/-- Where reading fails.  The message says byte `k` exactly if the bytes are not UTF-8 and the
longest piece from their beginning that is ends `k` bytes behind the byte order mark, or is `k`
bytes long if there is no mark.  So the message gives the length of that piece exactly if the file
has no mark. -/
theorem failsAt_iff (bytes : List UInt8) (k : Nat) :
    (FailsAt bytes k ↔
      ¬ bytes.toByteArray.IsValidUTF8 ∧ ValidUpTo bytes (markLength bytes + k)) ∧
    (FailsAt bytes k → (ValidUpTo bytes k ↔ ¬ bomBytes <+: bytes)) := by
  refine ⟨failsAt_iff_validUpTo, ?_⟩
  intro hfails
  have hvalid := (failsAt_iff_validUpTo.mp hfails).2
  rw [← markLength_eq_zero_iff]
  constructor
  · intro hvalid'
    have := hvalid.unique hvalid'
    omega
  · intro hzero
    rwa [hzero, Nat.zero_add] at hvalid

/-- Behind a byte order mark the offset falls short of the place in the file: the byte at fault is
the fifth, and the message calls it byte 1. -/
theorem failsAt_behindMark :
    let bytes : List UInt8 := [0xEF, 0xBB, 0xBF, 0x61, 0xFF]
    FailsAt bytes 1 ∧ ValidUpTo bytes 4 ∧ ¬ ValidUpTo bytes 1 := by
  intro bytes
  have hfault : ValidUpTo [0xFF] 0 := validUpTo_zero (by decide)
  have hvalid : ValidUpTo bytes 4 := (hfault.append 'a').append '\uFEFF'
  have hmark : markLength bytes = 3 := by decide
  have hinvalid : ¬ bytes.toByteArray.IsValidUTF8 := by
    intro hall
    exact absurd (hvalid.isValidUTF8_iff.mp hall) (by decide)
  refine ⟨failsAt_iff_validUpTo.mpr ⟨hinvalid, by rwa [hmark]⟩, hvalid, ?_⟩
  intro hone
  exact absurd (hone.unique hvalid) (by decide)

end Encoding

end Preprocessor
