/-
Texts as bytes.

UTF-8 may start with a byte order mark, which is not part of the text.  ISO-8859-1 has one
byte for each of the first 256 code points and nothing for the others.
-/

namespace Preprocessor

/-- How a text is stored. -/
inductive Encoding where
  | utf8
  | latin1
deriving DecidableEq

/-- Why a text cannot be read from bytes or stored as bytes. -/
inductive EncodingError where
  | unsupported (name : String)
  | invalidUtf8 (offset : Nat)
  | unencodable (c : Char)

def EncodingError.message : EncodingError → String
  | unsupported name => "unsupported encoding '" ++ name ++ "'"
  | invalidUtf8 offset => "invalid utf-8 at byte " ++ toString offset
  | unencodable c => "character '" ++ c.toString ++ "' cannot be encoded as iso-8859-1"

/-- A text, and whether a byte order mark came before it. -/
structure Decoded where
  text : String
  bom : Bool

namespace Encoding

def name : Encoding → String
  | utf8 => "utf-8"
  | latin1 => "iso-8859-1"

/-- The encoding of a name, in any case of its ASCII letters. -/
def ofName (s : String) : Except EncodingError Encoding :=
  let lowered := String.ofList (s.toList.map Char.toLower)
  if lowered == "utf-8" || lowered == "utf8" then .ok utf8
  else if lowered == "iso-8859-1" || lowered == "latin1" || lowered == "latin-1" then .ok latin1
  else .error (.unsupported lowered)

def bomBytes : List UInt8 := [0xEF, 0xBB, 0xBF]

/-- The six bits that a continuation byte carries. -/
def continuation? (b : UInt8) : Option Nat :=
  if 0x80 ≤ b && b < 0xC0 then some (b.toNat - 0x80) else none

/-- The character of a code point, unless it is a surrogate or too large. -/
def scalar? (n : Nat) : Option Char :=
  if h : n.isValidChar then some (Char.ofNatAux n h) else none

/-- The first character of some bytes, and the bytes after it. -/
def decodeChar : List UInt8 → Option (Char × List UInt8)
  | [] => none
  | a :: rest =>
    if a < 0x80 then (scalar? a.toNat).map (·, rest)
    else if 0xC2 ≤ a && a < 0xE0 then
      match rest with
      | b :: rest => do
        let x ← continuation? b
        (scalar? ((a.toNat - 0xC0) * 64 + x)).map (·, rest)
      | _ => none
    else if 0xE0 ≤ a && a < 0xF0 then
      match rest with
      | b :: c :: rest => do
        let x ← continuation? b
        let y ← continuation? c
        let n := ((a.toNat - 0xE0) * 64 + x) * 64 + y
        if n < 0x800 then none else (scalar? n).map (·, rest)
      | _ => none
    else if 0xF0 ≤ a && a < 0xF5 then
      match rest with
      | b :: c :: d :: rest => do
        let x ← continuation? b
        let y ← continuation? c
        let z ← continuation? d
        let n := (((a.toNat - 0xF0) * 64 + x) * 64 + y) * 64 + z
        if n < 0x10000 then none else (scalar? n).map (·, rest)
      | _ => none
    else none

theorem length_lt_of_decodeChar {bytes rest : List UInt8} {c : Char}
    (h : decodeChar bytes = some (c, rest)) : rest.length < bytes.length := by
  unfold decodeChar at h
  split at h
  · cases h
  · repeat' split at h
    all_goals
      simp only [Option.bind_eq_bind, Option.bind_eq_some_iff, Option.map_eq_some_iff,
        Option.ite_none_left_eq_some, Prod.mk.injEq, reduceCtorEq] at h
    · obtain ⟨_, _, _, rfl⟩ := h
      simp
    · obtain ⟨_, _, _, _, _, rfl⟩ := h
      simp only [List.length_cons]
      omega
    · obtain ⟨_, _, _, _, _, _, _, _, rfl⟩ := h
      simp only [List.length_cons]
      omega
    · obtain ⟨_, _, _, _, _, _, _, _, _, _, rfl⟩ := h
      simp only [List.length_cons]
      omega

/-- The characters of bytes of which `offset` are read and give `before`, the last one first. -/
def decodeFrom (offset : Nat) (before : List Char) (bytes : List UInt8) :
    Except EncodingError String :=
  if bytes.isEmpty then .ok (String.ofList before.reverse)
  else
    match _h : decodeChar bytes with
    | none => .error (.invalidUtf8 offset)
    | some (c, rest) => decodeFrom (offset + c.utf8Size) (c :: before) rest
termination_by bytes.length
decreasing_by exact length_lt_of_decodeChar ‹_›

/-- The text that some bytes store. -/
def decode (encoding : Encoding) (bytes : List UInt8) : Except EncodingError Decoded :=
  match encoding with
  | latin1 => .ok ⟨String.ofList (bytes.map fun b => Char.ofNat b.toNat), false⟩
  | utf8 =>
    match bytes with
    | 0xEF :: 0xBB :: 0xBF :: rest => (decodeFrom 0 [] rest).map (⟨·, true⟩)
    | _ => (decodeFrom 0 [] bytes).map (⟨·, false⟩)

def latin1Byte (c : Char) : Except EncodingError UInt8 :=
  if c.toNat < 256 then .ok (UInt8.ofNat c.toNat) else .error (.unencodable c)

/-- The bytes that store a text, with a byte order mark if the encoding has one. -/
def encode (encoding : Encoding) (s : String) (bom : Bool) : Except EncodingError (List UInt8) :=
  match encoding with
  | utf8 =>
    let body := s.toList.flatMap String.utf8EncodeChar
    .ok (if bom then bomBytes ++ body else body)
  | latin1 => s.toList.mapM latin1Byte

end Encoding

end Preprocessor
