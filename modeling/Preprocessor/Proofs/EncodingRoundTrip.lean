/-
Reading bytes and storing text are inverse.

In UTF-8 a character is read from exactly the bytes that store it, so bytes that can be read are
those that store what is read from them.  A byte order mark is kept apart from the text: it comes
back if it was there, and a text that starts with the character of the mark has to be stored with
one.  In ISO-8859-1 each byte is a character.
-/
import Preprocessor.Proofs.Computation
import Preprocessor.Text.Encoding

namespace Preprocessor

namespace Encoding

variable {bytes rest : List UInt8} {c : Char} {n : Nat}

/-! ## One character -/

theorem toNat_of_scalar? (h : scalar? n = some c) : c.val.toNat = n := by
  by_cases hvalid : n.isValidChar
  · rw [scalar?, dif_pos hvalid] at h
    cases h
    exact UInt32.toNat_ofNatLT ..
  · rw [scalar?, dif_neg hvalid] at h
    cases h

theorem scalar?_toNat (c : Char) : scalar? c.val.toNat = some c := by
  have hvalid : c.val.toNat.isValidChar := c.valid
  rw [scalar?, dif_pos hvalid]
  rfl

theorem continuation?_eq_some_iff {b : UInt8} {x : Nat} :
    continuation? b = some x ↔ b = UInt8.ofNat (x + 0x80) ∧ x < 64 := by
  unfold continuation?
  simp only [← UInt8.toNat_inj, UInt8.le_iff_toNat_le, UInt8.lt_iff_toNat_lt, Bool.and_eq_true,
    decide_eq_true_eq, UInt8.toNat_ofNat, UInt8.toNat_ofNat']
  have := b.toNat_lt
  split
  · rw [Option.some_inj]
    omega
  · simp only [reduceCtorEq, false_iff]
    omega

section

variable {x y z w : Nat}

theorem utf8EncodeChar_one (h : c.val.toNat = x) (hx : x < 0x80) :
    String.utf8EncodeChar c = [UInt8.ofNat x] := by
  rw [String.utf8EncodeChar, h, if_pos (by omega)]

theorem utf8EncodeChar_two (h : c.val.toNat = x * 64 + y) (hx : 2 ≤ x) (hx' : x < 32)
    (hy : y < 64) :
    String.utf8EncodeChar c = [UInt8.ofNat (x + 0xC0), UInt8.ofNat (y + 0x80)] := by
  have h₁ : (x * 64 + y) / 64 % 32 = x := by omega
  have h₂ : (x * 64 + y) % 64 = y := by omega
  rw [String.utf8EncodeChar, h, if_neg (by omega), if_pos (by omega), h₁, h₂]

theorem utf8EncodeChar_three (h : c.val.toNat = (x * 64 + y) * 64 + z)
    (hlow : 0x800 ≤ (x * 64 + y) * 64 + z) (hx : x < 16) (hy : y < 64) (hz : z < 64) :
    String.utf8EncodeChar c =
      [UInt8.ofNat (x + 0xE0), UInt8.ofNat (y + 0x80), UInt8.ofNat (z + 0x80)] := by
  have h₁ : ((x * 64 + y) * 64 + z) / 4096 % 16 = x := by omega
  have h₂ : ((x * 64 + y) * 64 + z) / 64 % 64 = y := by omega
  have h₃ : ((x * 64 + y) * 64 + z) % 64 = z := by omega
  rw [String.utf8EncodeChar, h, if_neg (by omega), if_neg (by omega), if_pos (by omega), h₁, h₂, h₃]

theorem utf8EncodeChar_four (h : c.val.toNat = ((x * 64 + y) * 64 + z) * 64 + w)
    (hlow : 0x10000 ≤ ((x * 64 + y) * 64 + z) * 64 + w) (hx : x < 8) (hy : y < 64)
    (hz : z < 64) (hw : w < 64) :
    String.utf8EncodeChar c =
      [UInt8.ofNat (x + 0xF0), UInt8.ofNat (y + 0x80), UInt8.ofNat (z + 0x80),
        UInt8.ofNat (w + 0x80)] := by
  have h₁ : (((x * 64 + y) * 64 + z) * 64 + w) / 262144 % 8 = x := by omega
  have h₂ : (((x * 64 + y) * 64 + z) * 64 + w) / 4096 % 64 = y := by omega
  have h₃ : (((x * 64 + y) * 64 + z) * 64 + w) / 64 % 64 = z := by omega
  have h₄ : (((x * 64 + y) * 64 + z) * 64 + w) % 64 = w := by omega
  rw [String.utf8EncodeChar, h, if_neg (by omega), if_neg (by omega), if_neg (by omega), h₁, h₂,
    h₃, h₄]

end

theorem eq_of_decodeChar (h : decodeChar bytes = some (c, rest)) :
    bytes = String.utf8EncodeChar c ++ rest := by
  have hlead {a : UInt8} {m : Nat} (hm : m ≤ a.toNat) : UInt8.ofNat (a.toNat - m + m) = a := by
    rw [Nat.sub_add_cancel hm, UInt8.ofNat_toNat]
  unfold decodeChar at h
  split at h
  · cases h
  · rename_i a more
    simp only [UInt8.le_iff_toNat_le, UInt8.lt_iff_toNat_lt, Bool.and_eq_true,
      decide_eq_true_eq, UInt8.toNat_ofNat, Nat.reduceMod, Nat.reducePow] at h
    repeat' split at h
    all_goals
      simp only [Option.bind_eq_bind, Option.bind_eq_some_iff, Option.map_eq_some_iff,
        Option.ite_none_left_eq_some, Prod.mk.injEq, reduceCtorEq, continuation?_eq_some_iff] at h
    · obtain ⟨_, hn, rfl, rfl⟩ := h
      rw [utf8EncodeChar_one (toNat_of_scalar? hn) (by omega), UInt8.ofNat_toNat]
      rfl
    · obtain ⟨y, ⟨rfl, hy⟩, _, hn, rfl, rfl⟩ := h
      rw [utf8EncodeChar_two (toNat_of_scalar? hn) (by omega) (by omega) hy, hlead (by omega)]
      rfl
    · obtain ⟨y, ⟨rfl, hy⟩, z, ⟨rfl, hz⟩, hlow, _, hn, rfl, rfl⟩ := h
      rw [utf8EncodeChar_three (toNat_of_scalar? hn) (by omega) (by omega) hy hz,
        hlead (by omega)]
      rfl
    · obtain ⟨y, ⟨rfl, hy⟩, z, ⟨rfl, hz⟩, w, ⟨rfl, hw⟩, hlow, _, hn, rfl, rfl⟩ := h
      rw [utf8EncodeChar_four (toNat_of_scalar? hn) (by omega) (by omega) hy hz hw,
        hlead (by omega)]
      rfl

section

variable {x y z w : Nat}

theorem decodeChar_one {a : UInt8} (ha : a.toNat = x) (hx : x < 0x80)
    (h : scalar? x = some c) : decodeChar (a :: rest) = some (c, rest) := by
  unfold decodeChar
  simp [UInt8.lt_iff_toNat_lt, ha, hx, h]

theorem decodeChar_two {a b : UInt8} (ha : a.toNat = x + 0xC0) (hb : continuation? b = some y)
    (hx : 2 ≤ x) (hx' : x < 32) (h : scalar? (x * 64 + y) = some c) :
    decodeChar (a :: b :: rest) = some (c, rest) := by
  have h₁ : ¬ x + 0xC0 < 0x80 := by omega
  have h₂ : 0xC2 ≤ x + 0xC0 ∧ x + 0xC0 < 0xE0 := by omega
  unfold decodeChar
  simp [UInt8.lt_iff_toNat_lt, UInt8.le_iff_toNat_le, ha, h₁, h₂, hb, h]

theorem decodeChar_three {a b d : UInt8} (ha : a.toNat = x + 0xE0)
    (hb : continuation? b = some y) (hd : continuation? d = some z)
    (hlow : 0x800 ≤ (x * 64 + y) * 64 + z) (hx : x < 16)
    (h : scalar? ((x * 64 + y) * 64 + z) = some c) :
    decodeChar (a :: b :: d :: rest) = some (c, rest) := by
  have h₁ : ¬ x + 0xE0 < 0x80 := by omega
  have h₂ : ¬ x + 0xE0 < 0xE0 := by omega
  have h₃ : 0xE0 ≤ x + 0xE0 ∧ x + 0xE0 < 0xF0 := by omega
  unfold decodeChar
  simp [UInt8.lt_iff_toNat_lt, UInt8.le_iff_toNat_le, ha, h₁, h₂, h₃, hb, hd, h,
    Nat.not_lt.mpr hlow]

theorem decodeChar_four {a b d f : UInt8} (ha : a.toNat = x + 0xF0)
    (hb : continuation? b = some y) (hd : continuation? d = some z)
    (hf : continuation? f = some w) (hlow : 0x10000 ≤ ((x * 64 + y) * 64 + z) * 64 + w)
    (hx : x < 5) (h : scalar? (((x * 64 + y) * 64 + z) * 64 + w) = some c) :
    decodeChar (a :: b :: d :: f :: rest) = some (c, rest) := by
  have h₁ : ¬ x + 0xF0 < 0x80 := by omega
  have h₂ : ¬ x + 0xF0 < 0xE0 := by omega
  have h₃ : ¬ x + 0xF0 < 0xF0 := by omega
  have h₄ : 0xF0 ≤ x + 0xF0 ∧ x + 0xF0 < 0xF5 := by omega
  unfold decodeChar
  simp [UInt8.lt_iff_toNat_lt, UInt8.le_iff_toNat_le, ha, h₁, h₂, h₃, h₄, hb, hd, hf, h,
    Nat.not_lt.mpr hlow]

end

theorem decodeChar_append (c : Char) (rest : List UInt8) :
    decodeChar (String.utf8EncodeChar c ++ rest) = some (c, rest) := by
  have hlead {x : Nat} (h : x < 256) : (UInt8.ofNat x).toNat = x := UInt8.toNat_ofNat_of_lt' h
  have hcont {x : Nat} (hx : x < 64) : continuation? (UInt8.ofNat (x + 0x80)) = some x :=
    continuation?_eq_some_iff.mpr ⟨rfl, hx⟩
  have hmax : c.val.toNat < 0x110000 := by
    have hvalid := c.valid
    simp only [UInt32.isValidChar, Nat.isValidChar] at hvalid
    omega
  have hscalar := scalar?_toNat c
  generalize hn : c.val.toNat = n at *
  by_cases h₁ : n < 0x80
  · rw [utf8EncodeChar_one hn h₁]
    exact decodeChar_one (hlead (by omega)) h₁ hscalar
  by_cases h₂ : n < 0x800
  · have hd : n = n / 64 * 64 + n % 64 := by omega
    rw [utf8EncodeChar_two (hn.trans hd) (by omega) (by omega) (by omega)]
    exact decodeChar_two (hlead (by omega)) (hcont (by omega)) (by omega) (by omega)
      (hd ▸ hscalar)
  by_cases h₃ : n < 0x10000
  · have hd : n = (n / 4096 * 64 + n / 64 % 64) * 64 + n % 64 := by omega
    rw [utf8EncodeChar_three (hn.trans hd) (by omega) (by omega) (by omega) (by omega)]
    exact decodeChar_three (hlead (by omega)) (hcont (by omega)) (hcont (by omega)) (by omega)
      (by omega) (hd ▸ hscalar)
  · have hd : n = ((n / 262144 * 64 + n / 4096 % 64) * 64 + n / 64 % 64) * 64 + n % 64 := by
      omega
    rw [utf8EncodeChar_four (hn.trans hd) (by omega) (by omega) (by omega) (by omega) (by omega)]
    exact decodeChar_four (hlead (by omega)) (hcont (by omega)) (hcont (by omega))
      (hcont (by omega)) (by omega) (by omega) (hd ▸ hscalar)

/-! ## Texts -/

theorem exists_of_decodeFrom {offset : Nat} {before : List Char} {s : String}
    (h : decodeFrom offset before bytes = .ok s) :
    ∃ cs, s = String.ofList (before.reverse ++ cs) ∧ bytes = cs.flatMap String.utf8EncodeChar := by
  fun_induction decodeFrom offset before bytes with
  | case1 offset before bytes hempty =>
      cases h
      exact ⟨[], by rw [List.append_nil], List.isEmpty_iff.mp hempty⟩
  | case2 => cases h
  | case3 offset before bytes hnonempty c rest hchar ih =>
      obtain ⟨cs, rfl, rfl⟩ := ih h
      refine ⟨c :: cs, by simp, ?_⟩
      rw [List.flatMap_cons]
      exact eq_of_decodeChar hchar

theorem decodeFrom_flatMap (offset : Nat) (before cs : List Char) :
    decodeFrom offset before (cs.flatMap String.utf8EncodeChar) =
      .ok (String.ofList (before.reverse ++ cs)) := by
  induction cs generalizing offset before with
  | nil =>
      rw [decodeFrom]
      simp
  | cons c cs ih =>
      have hchar := decodeChar_append c (cs.flatMap String.utf8EncodeChar)
      rw [List.flatMap_cons, decodeFrom]
      split
      · rename_i hempty
        rw [List.isEmpty_iff.mp hempty] at hchar
        cases hchar
      · split
        · rename_i hnone
          cases hchar.symm.trans hnone
        · rename_i c' rest hsome
          cases hchar.symm.trans hsome
          rw [ih]
          simp

theorem toNat_char (b : UInt8) : (Char.ofNat b.toNat).toNat = b.toNat := by
  have hvalid : b.toNat.isValidChar := .inl (by have := b.toNat_lt; omega)
  rw [Char.ofNat, dif_pos hvalid]
  exact UInt32.toNat_ofNatLT ..

theorem latin1Byte_eq_ok_iff {b : UInt8} : latin1Byte c = .ok b ↔ c = Char.ofNat b.toNat := by
  unfold latin1Byte
  split
  · rename_i hc
    rw [Except.ok.injEq, ← UInt8.toNat_inj, UInt8.toNat_ofNat_of_lt' hc]
    constructor
    · intro h
      rw [← h, Char.ofNat_toNat]
    · rintro rfl
      exact toNat_char b
  · rename_i hc
    refine iff_of_false nofun ?_
    rintro rfl
    rw [toNat_char] at hc
    exact hc b.toNat_lt

theorem mapM_latin1Byte_eq_ok_iff {cs : List Char} :
    cs.mapM latin1Byte = .ok bytes ↔ cs = bytes.map fun b => Char.ofNat b.toNat := by
  induction cs generalizing bytes with
  | nil =>
      constructor
      · intro h
        cases h
        rfl
      · intro h
        rw [List.map_eq_nil_iff.mp h.symm]
        rfl
  | cons c cs ih =>
      rw [List.mapM_cons]
      constructor
      · intro h
        obtain ⟨b, hb, h⟩ := exists_of_bind_eq_ok h
        obtain ⟨more, hmore, h⟩ := exists_of_bind_eq_ok h
        cases h
        rw [List.map_cons, ← latin1Byte_eq_ok_iff.mp hb, ← ih.mp hmore]
      · intro h
        obtain ⟨b, more, rfl, rfl, rfl⟩ := List.map_eq_cons_iff.mp h.symm
        rw [latin1Byte_eq_ok_iff.mpr rfl, ih.mpr rfl]
        rfl

/-- What is read from bytes is stored as these bytes. -/
theorem encode_of_decode {encoding : Encoding} {decoded : Decoded}
    (h : encoding.decode bytes = .ok decoded) :
    encoding.encode decoded.text (decoded.bom && encoding == .utf8) = .ok bytes := by
  cases encoding with
  | latin1 =>
      cases h
      rw [encode, String.toList_ofList, mapM_latin1Byte_eq_ok_iff]
  | utf8 =>
      unfold decode at h
      dsimp only at h
      split at h
      all_goals
        obtain ⟨s, hs, rfl⟩ := exists_of_map_eq_ok h
        obtain ⟨cs, rfl, rfl⟩ := exists_of_decodeFrom hs
        simp [encode, bomBytes]

def encodes : Encoding → Char → Bool
  | utf8, _ => true
  | latin1, c => c.toNat < 256

theorem encodes_of_decode {encoding : Encoding} {decoded : Decoded}
    (h : encoding.decode bytes = .ok decoded) :
    ∀ c ∈ decoded.text.toList, encoding.encodes c = true := by
  intro c hc
  cases encoding with
  | utf8 => rfl
  | latin1 =>
      cases h
      rw [String.toList_ofList] at hc
      obtain ⟨b, -, rfl⟩ := List.mem_map.mp hc
      rw [encodes, toNat_char]
      exact decide_eq_true b.toNat_lt

/-- A text whose characters all have bytes can be stored. -/
theorem exists_of_encodes {encoding : Encoding} {s : String}
    (h : ∀ c ∈ s.toList, encoding.encodes c = true) (bom : Bool) :
    ∃ bytes, encoding.encode s bom = .ok bytes := by
  cases encoding with
  | utf8 => exact ⟨_, rfl⟩
  | latin1 =>
      refine ⟨s.toList.map fun c => UInt8.ofNat c.toNat, mapM_latin1Byte_eq_ok_iff.mpr ?_⟩
      rw [List.map_map]
      refine (List.map_id _).symm.trans (List.map_congr_left fun c hc => ?_)
      have hc' : c.toNat < 256 := of_decide_eq_true (h c hc)
      change c = Char.ofNat (UInt8.ofNat c.toNat).toNat
      rw [UInt8.toNat_ofNat_of_lt' hc', Char.ofNat_toNat]

theorem eq_utf8_of_bom {encoding : Encoding} {decoded : Decoded}
    (h : encoding.decode bytes = .ok decoded) (hbom : decoded.bom = true) : encoding = .utf8 := by
  cases encoding with
  | utf8 => rfl
  | latin1 =>
      cases h
      cases hbom

/-- In ISO-8859-1 a text is read back from the bytes that store it, and without a mark. -/
theorem decode_of_encode_latin1 {s : String} {bom : Bool} (h : latin1.encode s bom = .ok bytes) :
    latin1.decode bytes = .ok ⟨s, false⟩ := by
  rw [encode, mapM_latin1Byte_eq_ok_iff] at h
  rw [decode, ← h, String.ofList_toList]

theorem decodeChar_bom : decodeChar (0xEF :: 0xBB :: 0xBF :: rest) = some ('\uFEFF', rest) :=
  decodeChar_three (x := 15) (y := 59) (z := 63) rfl rfl rfl (by decide) (by decide) rfl

/-- A text is read back from the bytes that store it, unless it is stored without a byte order mark
and starts like one. -/
theorem decode_of_encode {encoding : Encoding} {s : String} {bom : Bool}
    (hbom : bom = true → encoding = .utf8) (hmark : bom = false → s.toList.head? ≠ some '\uFEFF')
    (h : encoding.encode s bom = .ok bytes) : encoding.decode bytes = .ok ⟨s, bom⟩ := by
  cases encoding with
  | latin1 =>
      have hbom' : bom = false := by
        cases bom with
        | false => rfl
        | true => cases hbom rfl
      rw [hbom']
      exact decode_of_encode_latin1 h
  | utf8 =>
      cases h
      have hbody (cs : List Char) : decodeFrom 0 [] (cs.flatMap String.utf8EncodeChar) =
          .ok (String.ofList cs) := decodeFrom_flatMap 0 [] cs
      cases bom with
      | true =>
          change (decodeFrom 0 [] (s.toList.flatMap String.utf8EncodeChar)).map _ = _
          rw [hbody, String.ofList_toList]
          rfl
      | false =>
          rw [if_neg Bool.false_ne_true]
          unfold decode
          dsimp only
          split
          · rename_i rest heq
            cases hs : s.toList with
            | nil =>
                rw [hs] at heq
                cases heq
            | cons c cs =>
                -- the first character of the text would be the mark
                rw [hs, List.flatMap_cons] at heq
                have hchar := decodeChar_append c (cs.flatMap String.utf8EncodeChar)
                rw [heq, decodeChar_bom] at hchar
                cases hchar
                exact absurd (congrArg List.head? hs) (hmark rfl)
          · rw [hbody, String.ofList_toList]
            rfl

/-! ## Inverse functions -/

theorem utf8EncodeChar_mark : String.utf8EncodeChar '\uFEFF' = bomBytes := by decide

theorem encode_mark_cons (cs : List Char) :
    utf8.encode (String.ofList ('\uFEFF' :: cs)) false = utf8.encode (String.ofList cs) true := by
  simp [encode, utf8EncodeChar_mark]

/-- In UTF-8 a text is read back as it was stored, exactly if it does not start like a mark where
none was asked for. -/
theorem decode_eq_iff_of_encode {s : String} {bom : Bool} (h : utf8.encode s bom = .ok bytes) :
    utf8.decode bytes = .ok ⟨s, bom⟩ ↔ ¬ (bom = false ∧ s.toList.head? = some '\uFEFF') := by
  constructor
  · rintro hdecode ⟨rfl, hhead⟩
    obtain ⟨cs, hs⟩ := List.head?_eq_some_iff.mp hhead
    obtain rfl : s = String.ofList ('\uFEFF' :: cs) := by rw [← hs, String.ofList_toList]
    rw [encode_mark_cons] at h
    have hmarked := decode_of_encode (fun _ => rfl) (fun hbom => absurd hbom (by decide)) h
    have hbom := congrArg Decoded.bom (Except.ok.inj (hdecode.symm.trans hmarked))
    cases hbom
  · intro hmark
    exact decode_of_encode (fun _ => rfl) (fun hbom hhead => hmark ⟨hbom, hhead⟩) h

/-- A text cannot be stored exactly if one of its characters has no bytes. -/
theorem encode_eq_error_iff {encoding : Encoding} {s : String} {bom : Bool} :
    (∃ err, encoding.encode s bom = .error err) ↔
      ∃ c ∈ s.toList, encoding.encodes c = false := by
  constructor
  · rintro ⟨err, herr⟩
    by_contra hnone
    have hall : ∀ c ∈ s.toList, encoding.encodes c = true := by
      intro c hc
      cases hbytes : encoding.encodes c with
      | true => rfl
      | false => exact absurd ⟨c, hc, hbytes⟩ hnone
    obtain ⟨bytes, hbytes⟩ := exists_of_encodes hall bom
    cases herr.symm.trans hbytes
  · rintro ⟨c, hc, hfalse⟩
    cases hencode : encoding.encode s bom with
    | error err => exact ⟨err, rfl⟩
    | ok bytes =>
        cases encoding with
        | utf8 => cases hfalse
        | latin1 =>
            have := encodes_of_decode (decode_of_encode_latin1 hencode) c hc
            cases this.symm.trans hfalse

/-- Encoding and decoding are inverse.  Bytes that can be read are what is stored for the text and
the mark that are read from them.  A text that can be stored is read back from its bytes: in UTF-8
with its mark, unless none was asked for and the text starts like one, and in ISO-8859-1 without.
What cannot be stored is a text with a character above U+00FF in ISO-8859-1. -/
theorem encode_decode_inverse (encoding : Encoding) :
    (∀ bytes decoded, encoding.decode bytes = .ok decoded →
      encoding.encode decoded.text decoded.bom = .ok bytes) ∧
    (∀ s bom bytes, encoding.encode s bom = .ok bytes →
      (encoding = .utf8 → (encoding.decode bytes = .ok ⟨s, bom⟩ ↔
        ¬ (bom = false ∧ s.toList.head? = some '\uFEFF'))) ∧
      (encoding = .latin1 → encoding.decode bytes = .ok ⟨s, false⟩)) ∧
    ∀ s bom, (∃ err, encoding.encode s bom = .error err) ↔
      encoding = .latin1 ∧ ∃ c ∈ s.toList, 0xFF < c.toNat := by
  refine ⟨fun bytes decoded h => ?_, fun s bom bytes h => ⟨?_, ?_⟩, fun s bom => ?_⟩
  · have hbom : (decoded.bom && encoding == .utf8) = decoded.bom := by
      cases hmark : decoded.bom with
      | false => rfl
      | true =>
          rw [eq_utf8_of_bom h hmark]
          rfl
    rw [← hbom]
    exact encode_of_decode h
  · rintro rfl
    exact decode_eq_iff_of_encode h
  · rintro rfl
    exact decode_of_encode_latin1 h
  · rw [encode_eq_error_iff]
    cases encoding with
    | utf8 => simp [encodes]
    | latin1 =>
        have habove (c : Char) : latin1.encodes c = false ↔ 0xFF < c.toNat := by
          rw [encodes, decide_eq_false_iff_not]
          omega
        simp only [habove, true_and]

/-- Of two marks the first is kept apart and the second is text, however they came there. -/
theorem encode_decode_inverse_twoMarks :
    let bytes : List UInt8 := [0xEF, 0xBB, 0xBF, 0xEF, 0xBB, 0xBF, 0xC3, 0xA9]
    utf8.encode "\uFEFFé" true = .ok bytes ∧ utf8.decode bytes = .ok ⟨"\uFEFFé", true⟩ ∧
      utf8.encode "\uFEFF\uFEFFé" false = .ok bytes ∧
      utf8.decode bytes ≠ .ok ⟨"\uFEFF\uFEFFé", false⟩ ∧
      ∃ err, latin1.encode "éĀ" true = .error err := by
  intro bytes
  have hone : utf8.encode "\uFEFFé" true = .ok bytes := eq_ok_of_toOption (by decide +kernel)
  have htwo : utf8.encode "\uFEFF\uFEFFé" false = .ok bytes :=
    eq_ok_of_toOption (by decide +kernel)
  obtain ⟨-, hdecode, -⟩ := encode_decode_inverse .utf8
  obtain ⟨-, -, hfault⟩ := encode_decode_inverse .latin1
  refine ⟨hone, ?_, htwo, ?_, (hfault _ _).mpr ⟨rfl, 'Ā', by decide +kernel, by decide⟩⟩
  · exact ((hdecode _ _ _ hone).1 rfl).mpr (by decide +kernel)
  · exact fun h => ((hdecode _ _ _ htwo).1 rfl).mp h (by decide +kernel)

end Encoding

end Preprocessor
