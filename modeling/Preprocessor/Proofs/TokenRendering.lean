/-
Tokens that are written out are read back.

A token has a written form, numbers and strings among them more than one: a number can have zeros
in front and letters of either case, and is hexadecimal after its mark; a string stands in quotes
with six characters escaped.  If at least one blank is put between any two of them, then the tokens
of the text are the ones that were written, each at the place where it was written.
-/
import Preprocessor.Proofs.IntegerExactness
import Preprocessor.Proofs.TokenEnds

namespace Preprocessor

/-! ## Numerals -/

namespace Decimal

/-- `DigitOf base c d`: a character is the digit of a value, a letter in either case. -/
def DigitOf (base : Nat) (c : Char) (d : Nat) : Prop :=
  d < base ∧ (c = d.digitChar ∨ c = d.digitChar.toUpper)

/-- `Spells base cs n`: a row of digits has a value, the last digit counting once and what is
before it `base` times. -/
inductive Spells (base : Nat) : List Char → Nat → Prop
  | digit {c : Char} {d : Nat} : DigitOf base c d → Spells base [c] d
  | append {cs : List Char} {n : Nat} {c : Char} {d : Nat} :
      Spells base cs n → DigitOf base c d → Spells base (cs ++ [c]) (base * n + d)

theorem spells_toDigits {base : Nat} (hbase : 1 < base) (n : Nat) :
    Spells base (Nat.toDigits base n) n := by
  induction n using Nat.strongRecOn with
  | ind n ih =>
      by_cases hn : n < base
      · rw [Nat.toDigits_of_lt_base hn]
        exact .digit ⟨hn, .inl rfl⟩
      · have hdiv : n / base < n := Nat.div_lt_self (by omega) hbase
        have hmod : n % base < base := Nat.mod_lt n (by omega)
        have happend := (ih _ hdiv).append ⟨hmod, .inl rfl⟩
        rwa [Nat.div_add_mod, ← Nat.toDigits_of_base_le hbase (by omega)] at happend

section

variable {base : Nat} (hbase : base = 10 ∨ base = 16) {cs : List Char} {n : Nat}

include hbase

theorem digit?_of_digitOf {c : Char} {d : Nat} (h : DigitOf base c d) : digit? base c = some d := by
  obtain ⟨hd, hc⟩ := h
  have hall : ∀ base ∈ [10, 16], ∀ d < base,
      digit? base d.digitChar = some d ∧ digit? base d.digitChar.toUpper = some d := by
    decide
  obtain ⟨hlower, hupper⟩ := hall base (by simpa using hbase) d hd
  rcases hc with rfl | rfl
  · exact hlower
  · exact hupper

theorem isSome_digit?_of_spells (h : Spells base cs n) :
    ∀ c ∈ cs, (digit? base c).isSome = true := by
  have hdigit {c : Char} {d : Nat} (hd : DigitOf base c d) : (digit? base c).isSome = true := by
    rw [digit?_of_digitOf hbase hd]
    rfl
  induction h with
  | digit hd => exact List.forall_mem_singleton.mpr (hdigit hd)
  | append _ hd ih =>
      exact List.forall_mem_append.mpr ⟨ih, List.forall_mem_singleton.mpr (hdigit hd)⟩

omit hbase in
theorem Spells.exists_cons (h : Spells base cs n) : ∃ c more, cs = c :: more := by
  cases h with
  | digit _ => exact ⟨_, _, rfl⟩
  | @append cs _ c _ _ _ =>
      cases cs with
      | nil => exact ⟨_, _, rfl⟩
      | cons c' cs => exact ⟨_, _, rfl⟩

omit hbase in
theorem digitsFrom_append (acc : Nat) (cs ds : List Char) :
    digitsFrom base acc (cs ++ ds) =
      (digitsFrom base acc cs).bind fun n => digitsFrom base n ds := by
  induction cs generalizing acc with
  | nil => rfl
  | cons c cs ih =>
      rw [List.cons_append, digitsFrom, digitsFrom, Option.bind_assoc]
      congr 1
      funext d
      exact ih (base * acc + d)

theorem nat?_of_spells (h : Spells base cs n) : nat? base cs = some n := by
  have hdigits : digitsFrom base 0 cs = some n := by
    induction h with
    | digit hd => simp [digitsFrom, digit?_of_digitOf hbase hd]
    | append _ hd ih => simp [digitsFrom_append, ih, digitsFrom, digit?_of_digitOf hbase hd]
  obtain ⟨c, more, rfl⟩ := h.exists_cons
  rw [nat?, if_neg (by simp), hdigits]

theorem splitSign_of_spells (h : Spells base cs n) : splitSign cs = (false, cs) := by
  have hsome := isSome_digit?_of_spells hbase h
  have hsign (c : Char) (hc : c = '-' ∨ c = '+') : (digit? base c).isSome = false := by
    rcases hbase with rfl | rfl <;> rcases hc with rfl | rfl <;> decide
  unfold splitSign
  split
  · have := hsome '-' List.mem_cons_self
    rw [hsign '-' (.inl rfl)] at this
    cases this
  · have := hsome '+' List.mem_cons_self
    rw [hsign '+' (.inr rfl)] at this
    cases this
  · rfl

theorem readInt_of_spells {k : Int64} (h : Spells base cs n) (hk : k.toInt = n) :
    readInt base cs = some k := by
  obtain ⟨k', hk', hvalue⟩ := int64?_of_fits (fits_toInt k)
  have hsame : k' = k := Int64.toInt_inj.mp hvalue
  rw [readInt, splitSign_of_spells hbase h]
  show (nat? base cs).bind _ = _
  rw [nat?_of_spells hbase h, Option.bind_some, Double.signed, if_neg Bool.false_ne_true, ← hk,
    hk', hsame]

end

end Decimal

namespace Token

/-! ## Strings -/

/-- The characters that are escaped in a string, with what follows the escape. -/
def escapes : List (Char × Char) :=
  [('"', '"'), ('\\', '\\'), ('\r', 'r'), ('\n', 'n'), ('\t', 't'), ('\x00', '0')]

/-- How a character of a string is written. -/
def escape (c : Char) : List Char :=
  match escapes.lookup c with
  | some e => ['\\', e]
  | none => [c]

def quoted (s : String) : List Char :=
  '"' :: (s.toList.flatMap escape ++ ['"'])

theorem escaped?_of_lookup {c e : Char} (h : escapes.lookup c = some e) : escaped? e = some c := by
  have hall : ∀ p ∈ escapes, escaped? p.2 = some p.1 := by decide
  obtain ⟨before, after, hescapes, -⟩ := List.lookup_eq_some_iff.mp h
  exact hall (c, e) (by rw [hescapes]; simp)

theorem readString_escape (before : List Char) (count : Nat) (c : Char) (rest : List Char) :
    readString before count (escape c ++ rest) =
      readString (c :: before) (count + (escape c).length) rest := by
  unfold escape
  cases hc : escapes.lookup c with
  | some e =>
      show readString before count ('\\' :: e :: rest) = _
      rw [readString, escaped?_of_lookup hc]
      rfl
  | none =>
      show readString before count (c :: rest) = _
      rw [readString]
      · rfl
      · rintro rfl
        cases hc
      · rintro rfl
        cases hc

theorem readString_flatMap (before : List Char) (count : Nat) (cs : List Char) :
    readString before count (cs.flatMap escape ++ ['"']) =
      .ok (.literal (.str (String.ofList (before.reverse ++ cs))),
        count + (cs.flatMap escape).length + 1) := by
  induction cs generalizing before count with
  | nil =>
      show readString before count ['"'] = _
      rw [readString, List.append_nil]
      rfl
  | cons c cs ih =>
      rw [List.flatMap_cons, List.append_assoc, readString_escape, ih, List.length_append,
        List.reverse_cons, List.append_assoc, List.singleton_append, Nat.add_assoc count]

/-! ## Written forms -/

def words : List String :=
  ["true", "false", "in"]

inductive Written : TokenKind → List Char → Prop
  /-- An integer that is not negative, in decimal. -/
  | decimal {k : Int64} {n : Nat} {cs : List Char} :
      k.toInt = n → Decimal.Spells 10 cs n → Written (.literal (.int k)) cs
  /-- An integer that is not negative, in hexadecimal. -/
  | hexadecimal {k : Int64} {n : Nat} {x : Char} {cs : List Char} :
      k.toInt = n → isHexMark x = true → Decimal.Spells 16 cs n →
      Written (.literal (.int k)) ('0' :: x :: cs)
  /-- Any string, in quotes. -/
  | string (s : String) : Written (.literal (.str s)) (quoted s)
  /-- A truth value. -/
  | bool (b : Bool) : Written (.literal (.bool b)) (if b then "true" else "false").toList
  /-- A name that does not end in a dot. -/
  | name {s : String} : Text.isName s.toList = true → s.toList.getLast? ≠ some '.' →
      s ∉ words → Written (.name s) s.toList
  /-- A mark. -/
  | mark (m : Mark) : Written (.mark m) m.lexeme.toList

/-! ## Written forms are read as their tokens -/

section

variable {c : Char} {cs rest : List Char}

theorem readFrom_of_isDigit (h : Decimal.isDigit c = true) :
    readFrom c rest = readNumber (c :: rest) := by
  rw [readFrom_of_class (by decide) h, if_pos h]

theorem isBlank_of_isDigit (h : Decimal.isDigit c = true) : Text.isBlank c = false :=
  Text.isBlank_of_class Text.isDigit_of_isBlank h

theorem isHexMark_of_isDigit (h : Decimal.isDigit c = true) : isHexMark c = false := by
  cases hmark : isHexMark c with
  | false => rfl
  | true =>
      rcases Bool.or_eq_true_iff.mp hmark with hc | hc
      · rw [beq_iff_eq.mp hc] at h
        exact absurd h (by decide)
      · rw [beq_iff_eq.mp hc] at h
        exact absurd h (by decide)

theorem readDecimal_of_readInt {k : Int64} (hdigits : ∀ c ∈ cs, Decimal.isDigit c = true)
    (hint : Decimal.readInt 10 cs = some k) :
    readDecimal cs = .ok (.literal (.int k), cs.length) := by
  have hwhole : cs.takeWhile Decimal.isDigit = cs := List.takeWhile_eq_self_iff.mpr hdigits
  simp [readDecimal, hwhole, fraction, exponent, hint]

theorem lexeme_decimal {k : Int64} {n : Nat} (hk : k.toInt = n) (h : Decimal.Spells 10 cs n) :
    Lexeme (.literal (.int k)) cs := by
  have hdigits : ∀ c ∈ cs, Decimal.isDigit c = true :=
    Decimal.isSome_digit?_of_spells (.inl rfl) h
  have hread := readDecimal_of_readInt hdigits (Decimal.readInt_of_spells (.inl rfl) h hk)
  obtain ⟨c, more, rfl⟩ := h.exists_cons
  obtain ⟨hc, hmore⟩ := List.forall_mem_cons.mp hdigits
  refine ⟨c, more, rfl, isBlank_of_isDigit hc, ?_⟩
  rw [readFrom_of_isDigit hc, readNumber_of_head?, hread, List.length_cons]
  exact fun _ x hx => isHexMark_of_isDigit (hmore x (List.mem_of_head? hx))

theorem lexeme_hexadecimal {k : Int64} {n : Nat} {x : Char} (hk : k.toInt = n)
    (hx : isHexMark x = true) (h : Decimal.Spells 16 cs n) :
    Lexeme (.literal (.int k)) ('0' :: x :: cs) := by
  have hwhole : cs.takeWhile Decimal.isHexDigit = cs :=
    List.takeWhile_eq_self_iff.mpr (Decimal.isSome_digit?_of_spells (.inr rfl) h)
  refine ⟨'0', x :: cs, rfl, by decide, ?_⟩
  rw [readFrom_of_isDigit (by decide), readNumber_of_isHexMark hx]
  simp [readHex, hwhole, Decimal.readInt_of_spells (.inr rfl) h hk]

theorem lexeme_string (s : String) : Lexeme (.literal (.str s)) (quoted s) := by
  refine ⟨'"', s.toList.flatMap escape ++ ['"'], rfl, by decide, ?_⟩
  show readString [] 1 _ = _
  rw [readString_flatMap, List.length_append, List.length_singleton, Nat.add_comm 1]
  simp

theorem lexeme_name {s : String} (hname : Text.isName s.toList = true)
    (hdot : s.toList.getLast? ≠ some '.') (hword : s ∉ words) : Lexeme (.name s) s.toList := by
  have hlast : ∀ hne : s.toList ≠ [], ¬ (s.toList.getLast hne == '.') = true := by
    intro hne hdots
    rw [List.getLast?_eq_some_getLast hne, beq_iff_eq.mp hdots] at hdot
    exact hdot rfl
  have hkind : ofWord s = .name s := by
    simp only [words, List.mem_cons, List.not_mem_nil, or_false, not_or] at hword
    simp [ofWord, hword]
  cases hchars : s.toList with
  | nil => simp [hchars, Text.isName] at hname
  | cons c more =>
      rw [hchars, Text.isName, Bool.and_eq_true] at hname
      have htaken : nameFrom c more = c :: more := by
        rw [nameFrom_eq hname.1 hname.2, ← hchars]
        exact List.rdropWhile_eq_self_iff.mpr hlast
      refine ⟨c, more, rfl, Text.isBlank_of_isNameStart hname.1, ?_⟩
      rw [readFrom_of_isNameStart hname.1, htaken, ← hchars, String.ofList_toList, hkind, hchars,
        List.length_cons]

theorem lexeme_bool (b : Bool) :
    Lexeme (.literal (.bool b)) (if b then "true" else "false").toList := by
  cases b with
  | true => exact ⟨'t', ['r', 'u', 'e'], rfl, by decide, rfl⟩
  | false => exact ⟨'f', ['a', 'l', 's', 'e'], rfl, by decide, rfl⟩

theorem lexeme_mark (m : Mark) : Lexeme (.mark m) m.lexeme.toList := by
  cases m <;> exact ⟨_, _, rfl, rfl, rfl⟩

theorem Written.lexeme {kind : TokenKind} (h : Written kind cs) : Lexeme kind cs := by
  cases h with
  | decimal hk hspells => exact lexeme_decimal hk hspells
  | hexadecimal hk hx hspells => exact lexeme_hexadecimal hk hx hspells
  | string s => exact lexeme_string s
  | bool b => exact lexeme_bool b
  | name hname hdot hword => exact lexeme_name hname hdot hword
  | mark m => exact lexeme_mark m

end

/-! ## Texts of written tokens -/

/-- A token as it is written, and the blanks after it. -/
structure Rendered where
  kind : TokenKind
  text : List Char
  gap : List Char
  written : Written kind text
  blank : ∀ c ∈ gap, Text.isBlank c = true

/-- The characters of a written token and of the blanks after it. -/
def Rendered.chars (item : Rendered) : List Char :=
  item.text ++ item.gap

/-- The tokens of what is written after `position` characters: each has the kind that was written
and stands after all that was written before it. -/
def placed (position : Nat) (items : List Rendered) : List Token :=
  items.mapIdx fun i item =>
    ⟨item.kind, position + ((items.take i).flatMap Rendered.chars).length⟩

theorem placed_cons (position : Nat) (item : Rendered) (items : List Rendered) :
    placed position (item :: items) =
      ⟨item.kind, position⟩ :: placed (position + item.chars.length) items := by
  rw [placed, List.mapIdx_cons, placed]
  congr 1
  refine congrArg (List.mapIdx · items) ?_
  funext i next
  rw [List.take_succ_cons, List.flatMap_cons, List.length_append, Nat.add_assoc]

theorem scanFrom_rendered (items : List Rendered)
    (hgaps : ∀ item ∈ items.dropLast, item.gap ≠ []) (position : Nat) :
    scanFrom position (items.flatMap Rendered.chars) =
      .ok ⟨placed position items, position + (items.flatMap Rendered.chars).length⟩ := by
  induction items generalizing position with
  | nil =>
      rw [List.flatMap_nil, scanFrom]
      rfl
  | cons item items ih =>
      -- the token ends where its gap begins, or with the text after the last one
      have hends : Ends (item.gap ++ items.flatMap Rendered.chars) := by
        cases items with
        | nil =>
            rw [List.flatMap_nil, List.append_nil]
            exact .of_blanks item.blank
        | cons next items =>
            have hgap : item.gap ≠ [] := hgaps item List.mem_cons_self
            intro c hc
            rw [List.head?_append_of_ne_nil _ hgap] at hc
            exact item.blank c (List.mem_of_head? hc)
      have hrest : ∀ next ∈ items.dropLast, next.gap ≠ [] := by
        intro next hnext
        refine hgaps next ?_
        cases items with
        | nil => cases hnext
        | cons first items => exact List.mem_cons_of_mem _ hnext
      rw [List.flatMap_cons, Rendered.chars, List.append_assoc,
        item.written.lexeme.scanFrom_append hends, scanFrom_blanks item.blank, ih hrest,
        placed_cons, Rendered.chars]
      simp only [Except.map, List.length_append, Nat.add_assoc]

/-- Scanning inverts writing.  The tokens of a text that consists of written tokens, each but the
last followed by at least one blank, are the ones that were written, each at the number of
characters before it, and the text ends after all of its characters. -/
theorem scan_rendered (lead : List Char) (items : List Rendered)
    (hlead : ∀ c ∈ lead, Text.isBlank c = true)
    (hgaps : ∀ item ∈ items.dropLast, item.gap ≠ []) :
    scan (String.ofList (lead ++ items.flatMap Rendered.chars)) =
      .ok ⟨items.mapIdx fun i item =>
          ⟨item.kind, (lead ++ (items.take i).flatMap Rendered.chars).length⟩,
        (lead ++ items.flatMap Rendered.chars).length⟩ := by
  rw [scan, String.toList_ofList, scanFrom_blanks hlead, scanFrom_rendered items hgaps]
  simp only [placed, List.length_append, Nat.zero_add]

theorem spells_bothCases : Decimal.Spells 16 ['1', 'f', 'A'] 0x1fA := by
  have hone : Decimal.Spells 16 ['1'] 0x1 := .digit ⟨by decide, .inl rfl⟩
  have htwo : Decimal.Spells 16 ['1', 'f'] 0x1f :=
    hone.append (c := 'f') (d := 15) ⟨by decide, .inl rfl⟩
  exact htwo.append (c := 'A') (d := 10) ⟨by decide, .inr rfl⟩

/-- The largest integer, one in hexadecimal with letters of both cases, a string with an escaped
quote and line feed, a name of two scripts, the membership operator and a mark of two characters. -/
def mixedForms : List Rendered :=
  [⟨.literal (.int 9223372036854775807), Nat.toDigits 10 9223372036854775807, ['\t'],
      .decimal rfl (Decimal.spells_toDigits (by decide) _), List.all_eq_true.mp (by decide)⟩,
    ⟨.literal (.int 0x1fA), ['0', 'X', '1', 'f', 'A'], [' ', '\u00A0'],
      .hexadecimal rfl rfl spells_bothCases, List.all_eq_true.mp (by decide)⟩,
    ⟨.literal (.str "a\"b\n"), quoted "a\"b\n", [' '], .string _,
      List.all_eq_true.mp (by decide)⟩,
    ⟨.name "größe.Δr", "größe.Δr".toList, ['\n'],
      .name (by decide +kernel) (by decide) (by decide), List.all_eq_true.mp (by decide)⟩,
    ⟨.mark .inWord, ['i', 'n'], [' '], .mark .inWord, List.all_eq_true.mp (by decide)⟩,
    ⟨.mark .lessEq, ['<', '='], [], .mark .lessEq, List.all_eq_true.mp (by decide)⟩]

theorem scan_rendered_mixedForms :
    (∀ item ∈ mixedForms.dropLast, item.gap ≠ []) ∧
      scan " 9223372036854775807\t0X1fA \u00A0\"a\\\"b\\n\" größe.Δr\nin <=" =
        .ok ⟨[⟨.literal (.int 9223372036854775807), 1⟩, ⟨.literal (.int 0x1fA), 21⟩,
          ⟨.literal (.str "a\"b\n"), 28⟩, ⟨.name "größe.Δr", 37⟩, ⟨.mark .inWord, 46⟩,
          ⟨.mark .lessEq, 49⟩], 51⟩ := by
  have hgaps : ∀ item ∈ mixedForms.dropLast, item.gap ≠ [] := by decide
  have htext : String.ofList ([' '] ++ mixedForms.flatMap Rendered.chars) =
      " 9223372036854775807\t0X1fA \u00A0\"a\\\"b\\n\" größe.Δr\nin <=" := by
    decide +kernel
  have hplaced : (mixedForms.mapIdx fun i item => (⟨item.kind,
        ([' '] ++ (mixedForms.take i).flatMap Rendered.chars).length⟩ : Token)) =
      [⟨.literal (.int 9223372036854775807), 1⟩, ⟨.literal (.int 0x1fA), 21⟩,
        ⟨.literal (.str "a\"b\n"), 28⟩, ⟨.name "größe.Δr", 37⟩, ⟨.mark .inWord, 46⟩,
        ⟨.mark .lessEq, 49⟩] := by
    decide +kernel
  have hlength : ([' '] ++ mixedForms.flatMap Rendered.chars).length = 51 := by decide +kernel
  have hscan := scan_rendered [' '] mixedForms (List.all_eq_true.mp (by decide)) hgaps
  rw [htext, hplaced, hlength] at hscan
  exact ⟨hgaps, hscan⟩

end Token

end Preprocessor
