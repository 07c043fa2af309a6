/-
Literals are read alike everywhere.

Truth values and integers have spellings: their text form, and the ways to write them in an
expression.  Outside of expressions each spelling, with any blanks around it, is read as its value.
So a definition gives back the value of which it holds the text form, and a text that is a single
literal in an expression stands for the same value outside.
-/
import Preprocessor.Proofs.IntegerLiterals
import Preprocessor.Proofs.TextCutting
import Preprocessor.Proofs.TokenTiling

namespace Preprocessor

/-! ## Blanks around a text -/

namespace Text

variable {lead cs gap : List Char}

/-- What comes after a run of characters of a class, if it begins with one that is not of the
class. -/
theorem dropWhile_of_head? {p : Char → Bool} (hlead : ∀ c ∈ lead, p c = true)
    (hcs : ∀ c ∈ cs.head?, p c = false) : (lead ++ cs).dropWhile p = cs := by
  rw [List.dropWhile_append_of_pos hlead]
  cases cs with
  | nil => rfl
  | cons c cs =>
      rw [List.dropWhile_cons_of_neg]
      rw [hcs c rfl]
      exact Bool.false_ne_true

theorem trim_of_blanks (hlead : ∀ c ∈ lead, isBlank c = true) (hgap : ∀ c ∈ gap, isBlank c = true)
    (hcs : ∀ c ∈ cs, isBlank c = false) : trim (lead ++ cs ++ gap) = cs := by
  cases cs with
  | nil =>
      have hall : ∀ c ∈ lead ++ gap, isBlank c = true := List.forall_mem_append.mpr ⟨hlead, hgap⟩
      rw [List.append_nil, trim, trimStart, List.dropWhile_eq_nil_iff.mpr hall]
      rfl
  | cons c more =>
      have hstart : trimStart (lead ++ (c :: more) ++ gap) = c :: more ++ gap := by
        rw [List.append_assoc]
        refine dropWhile_of_head? hlead ?_
        rintro d ⟨⟩
        exact hcs c List.mem_cons_self
      rw [trim, hstart, trimEnd, List.reverse_append, dropWhile_of_head?, List.reverse_reverse]
      · intro d hd
        exact hgap d (List.mem_reverse.mp hd)
      · intro d hd
        exact hcs d (List.mem_reverse.mp (List.mem_of_head? hd))

theorem cut_of_not_mem {mark : Char} {before rest : List Char} (h : mark ∉ before) :
    cut [mark] (before ++ mark :: rest) = some (before, rest) := by
  induction before with
  | nil => simp [cut, after?]
  | cons c before ih =>
      obtain ⟨hc, hbefore⟩ := List.ne_and_not_mem_of_not_mem_cons h
      simp [cut, after?, hc, ih hbefore]

theorem isNamePart_of_isName (h : isName cs = true) : ∀ c ∈ cs, isNamePart c = true := by
  cases cs with
  | nil => cases h
  | cons c rest =>
      rw [isName, Bool.and_eq_true] at h
      obtain ⟨hstart, hrest⟩ := h
      refine List.forall_mem_cons.mpr ⟨?_, List.all_eq_true.mp hrest⟩
      rcases Bool.or_eq_true_iff.mp hstart with hletter | hunderscore
      · simp [isNamePart, hletter]
      · simp [isNamePart, hunderscore]

theorem isBlank_of_isName (h : isName cs = true) : ∀ c ∈ cs, isBlank c = false := by
  intro c hc
  exact isBlank_of_class isNamePart_of_isBlank (isNamePart_of_isName h c hc)

end Text

/-! ## Spellings -/

namespace Decimal

variable {cs : List Char} {base n : Nat}

theorem isBlank_of_spells (hbase : base = 10 ∨ base = 16) (h : Spells base cs n) :
    ∀ c ∈ cs, Text.isBlank c = false := by
  intro c hc
  have hdigit := isSome_digit?_of_spells hbase h c hc
  rcases hbase with rfl | rfl
  · exact Token.isBlank_of_isDigit hdigit
  · exact Text.isBlank_of_class Text.isHexDigit_of_isBlank hdigit

theorem isBlank_of_signedSpells {k : Int} (hbase : base = 10 ∨ base = 16)
    (h : SignedSpells base cs k) : ∀ c ∈ cs, Text.isBlank c = false := by
  cases h with
  | bare hdigits => exact isBlank_of_spells hbase hdigits
  | plus hdigits => exact List.forall_mem_cons.mpr ⟨by decide, isBlank_of_spells hbase hdigits⟩
  | minus hdigits => exact List.forall_mem_cons.mpr ⟨by decide, isBlank_of_spells hbase hdigits⟩

end Decimal

namespace Value

open Decimal Token

variable {v : Value} {cs : List Char}

/-- `Spelling v cs`: a truth value or an integer is written as `cs`. -/
inductive Spelling : Value → List Char → Prop
  | bool (b : Bool) : Spelling (.bool b) (if b then "true" else "false").toList
  | int {k : Int64} {cs : List Char} : IntegerForm cs k.toInt → Spelling (.int k) cs

theorem IntegerForm.isBlank_of_mem {n : Int} (h : IntegerForm cs n) :
    ∀ c ∈ cs, Text.isBlank c = false := by
  cases h with
  | decimal hdigits => exact isBlank_of_signedSpells (.inl rfl) hdigits
  | hexadecimal hx hdigits =>
      have hmark {c : Char} (hblank : Text.isBlank c = true) : isHexMark c = false :=
        Text.forall_of_isBlank (p := fun c => isHexMark c = false) (by decide) hblank
      refine List.forall_mem_cons.mpr ⟨by decide, List.forall_mem_cons.mpr ⟨?_, ?_⟩⟩
      · exact Text.isBlank_of_class hmark hx
      · exact isBlank_of_spells (.inr rfl) hdigits

theorem Spelling.isBlank_of_mem (h : Spelling v cs) : ∀ c ∈ cs, Text.isBlank c = false := by
  cases h with
  | bool b =>
      have hany : ∀ b : Bool, (if b then "true" else "false").toList.any Text.isBlank = false := by
        decide
      intro c hc
      exact Bool.eq_false_iff.mpr (List.any_eq_false.mp (hany b) c hc)
  | int hform => exact hform.isBlank_of_mem

/-- A spelling is read as its value, whatever blanks are around it. -/
theorem ofLiteral_of_spelling {lead gap : List Char} (h : Spelling v cs)
    (hlead : ∀ c ∈ lead, Text.isBlank c = true) (hgap : ∀ c ∈ gap, Text.isBlank c = true) :
    ofLiteral (String.ofList (lead ++ cs ++ gap)) = v := by
  have htrim : Text.trim (String.ofList (lead ++ cs ++ gap)).toList = cs := by
    rw [String.toList_ofList]
    exact Text.trim_of_blanks hlead hgap h.isBlank_of_mem
  cases h with
  | bool b =>
      unfold ofLiteral
      rw [htrim]
      cases b with
      | true => rfl
      | false => rfl
  | int hform =>
      rw [ofLiteral_eq_int_iff_forms, htrim]
      exact .inl hform

theorem signedSpells_intText (k : Int64) : SignedSpells 10 (intText k).toList k.toInt := by
  have hdigits : Spells 10 (natText k.toInt.natAbs) k.toInt.natAbs :=
    spells_toDigits (by decide) _
  rw [intText]
  generalize k.toInt = n at hdigits ⊢
  by_cases hneg : n < 0
  · have hvalue : n = -(n.natAbs : Int) := by omega
    have hminus := SignedSpells.minus hdigits
    rw [← hvalue] at hminus
    simpa [hneg] using hminus
  · have hvalue : n = (n.natAbs : Int) := by omega
    have hbare := SignedSpells.bare hdigits
    rw [← hvalue] at hbare
    simpa [hneg] using hbare

theorem spelling_text (h : v.type = .bool ∨ v.type = .int) : Spelling v v.text.toList := by
  cases v with
  | bool b => exact .bool b
  | int k => exact .int (.decimal (signedSpells_intText k))
  | float x => simp [type] at h
  | str s => simp [type] at h
  | set s => simp [type] at h

end Value

/-! ## Definitions -/

theorem readDefinition_of_isName {name lead gap rest : List Char} (hname : Text.isName name = true)
    (hlead : ∀ c ∈ lead, Text.isBlank c = true) (hgap : ∀ c ∈ gap, Text.isBlank c = true) :
    readDefinition (String.ofList (lead ++ name ++ gap ++ '=' :: rest)) =
      .ok (String.ofList name, Value.ofLiteral (String.ofList (Text.trim rest))) := by
  have hbefore : '=' ∉ lead ++ name ++ gap := by
    have hblank : Text.isBlank '=' = false := by decide
    intro hmem
    rcases List.mem_append.mp hmem with hmem | hmem
    · rcases List.mem_append.mp hmem with hmem | hmem
      · exact Text.ne_of_isBlank (hlead _ hmem) hblank rfl
      · exact absurd (Text.isNamePart_of_isName hname _ hmem) (by decide +kernel)
    · exact Text.ne_of_isBlank (hgap _ hmem) hblank rfl
  have htrim : Text.trim (lead ++ name ++ gap) = name :=
    Text.trim_of_blanks hlead hgap (Text.isBlank_of_isName hname)
  rw [readDefinition, String.toList_ofList, Text.cut_of_not_mem hbefore]
  dsimp only
  rw [htrim, if_pos hname]

/-- Definitions read back what the text form writes.  A name, an equals sign and the text form of a
truth value or of an integer, with any blanks around the name and around the text form, define the
name to be that value. -/
theorem readDefinition_text (name : String) (v : Value) (lead gap lead' gap' : List Char)
    (hname : Text.isName name.toList = true) (hv : v.type = .bool ∨ v.type = .int)
    (hblank : ∀ c ∈ lead ++ gap ++ lead' ++ gap', Text.isBlank c = true) :
    readDefinition (String.ofList
        (lead ++ name.toList ++ gap ++ '=' :: (lead' ++ v.text.toList ++ gap'))) =
      .ok (name, v) := by
  simp only [List.forall_mem_append] at hblank
  obtain ⟨⟨⟨hlead, hgap⟩, hlead'⟩, hgap'⟩ := hblank
  have hspelling := Value.spelling_text hv
  have htrim : Text.trim (lead' ++ v.text.toList ++ gap') = v.text.toList :=
    Text.trim_of_blanks hlead' hgap' hspelling.isBlank_of_mem
  have hvalue : Value.ofLiteral (String.ofList v.text.toList) = v := by
    have hread :=
      Value.ofLiteral_of_spelling hspelling (List.forall_mem_nil _) (List.forall_mem_nil _)
    rwa [List.nil_append, List.append_nil] at hread
  rw [readDefinition_of_isName hname hlead hgap, htrim, hvalue, String.ofList_toList]

theorem readDefinition_text_minimum :
    Text.isName "größe.Δ2".toList = true ∧
      readDefinition "\t größe.Δ2 =\u00A0-9223372036854775808\n" =
        .ok ("größe.Δ2", .int (-9223372036854775808)) := by
  have hname : Text.isName "größe.Δ2".toList = true := by decide +kernel
  have hblank : ∀ c ∈ ['\t', ' '] ++ [' '] ++ ['\u00A0'] ++ ['\n'], Text.isBlank c = true :=
    List.all_eq_true.mp (by decide)
  have htext : String.ofList (['\t', ' '] ++ "größe.Δ2".toList ++ [' '] ++
      '=' :: (['\u00A0'] ++ (Value.int (-9223372036854775808)).text.toList ++ ['\n'])) =
        "\t größe.Δ2 =\u00A0-9223372036854775808\n" := by
    decide +kernel
  have hread := readDefinition_text "größe.Δ2" (.int (-9223372036854775808)) ['\t', ' '] [' ']
    ['\u00A0'] ['\n'] hname (.inr rfl) hblank
  rw [htext] at hread
  exact ⟨hname, hread⟩

/-! ## Literals of expressions -/

namespace Token

open Decimal

variable {c : Char} {cs rest own : List Char} {v : Value} {kind : TokenKind} {n : Nat}

theorem exists_of_pair {second : Char} {both : Mark} {alone : Except ParseFault Mark}
    (h : pair second both alone rest = .ok (kind, n)) : ∃ m, kind = .mark m := by
  unfold pair at h
  split at h
  · cases h
    exact ⟨both, rfl⟩
  · cases alone with
    | ok m =>
        cases h
        exact ⟨m, rfl⟩
    | error fault => cases h

theorem exists_of_readString {before : List Char} {count : Nat}
    (h : readString before count cs = .ok (kind, n)) : ∃ s, kind = .literal (.str s) := by
  fun_induction readString before count cs with
  | case1 => cases h
  | case2 =>
      cases h
      exact ⟨_, rfl⟩
  | case3 => cases h
  | case4 before count c more e hescaped ih => exact ih h
  | case5 => cases h
  | case6 before count c cs hquote hescape ih => exact ih h

theorem readFrom_cases (h : readFrom c rest = .ok (kind, n)) :
    (∃ m, kind = .mark m) ∨ (∃ s, kind = .literal (.str s)) ∨
      Decimal.isDigit c = true ∨ Text.isNameStart c = true := by
  unfold readFrom at h
  cases hsingle : single? c with
  | some m =>
      rw [hsingle] at h
      cases h
      exact .inl ⟨m, rfl⟩
  | none =>
      rw [hsingle] at h
      dsimp only at h
      repeat' split at h
      iterate 6 exact .inl (exists_of_pair h)
      · exact .inr (.inl (exists_of_readString h))
      · rename_i hdigit
        exact .inr (.inr (.inl hdigit))
      · rename_i hname
        exact .inr (.inr (.inr hname))
      · cases h

theorem exists_spells_of_readInt {base : Nat} {k : Int64} (hbase : base = 10 ∨ base = 16)
    (hdigits : ∀ c ∈ cs, (digit? base c).isSome = true) (h : readInt base cs = some k) :
    ∃ n : Nat, k.toInt = n ∧ Spells base cs n := by
  have hsign {sign : Char} {ds : List Char} (hs : isSign sign = true) : cs ≠ sign :: ds := by
    rintro rfl
    have hdigit := hdigits sign List.mem_cons_self
    rw [digit?_of_isSign hbase hs] at hdigit
    cases hdigit
  have hsigned := (readInt_eq_some_iff hbase).mp h
  generalize k.toInt = value at hsigned
  cases hsigned with
  | bare hspells => exact ⟨_, rfl, hspells⟩
  | plus _ => exact absurd rfl (hsign rfl)
  | minus _ => exact absurd rfl (hsign rfl)

theorem takeWhile_eq_self_of_length {p : Char → Bool} (h : (cs.takeWhile p).length = cs.length) :
    cs.takeWhile p = cs :=
  (List.takeWhile_prefix p).eq_of_length h

theorem written_of_readHex {x : Char} (hx : isHexMark x = true)
    (h : readHex rest = .ok (kind, rest.length + 2)) : Written kind ('0' :: x :: rest) := by
  unfold readHex at h
  dsimp only at h
  split at h
  · rename_i k hread
    obtain ⟨rfl, hlength⟩ := Prod.mk.inj (Except.ok.inj h)
    have hwhole : rest.takeWhile isHexDigit = rest := takeWhile_eq_self_of_length (by omega)
    rw [hwhole] at hread
    obtain ⟨n, hk, hspells⟩ :=
      exists_spells_of_readInt (.inr rfl) (List.takeWhile_eq_self_iff.mp hwhole) hread
    exact .hexadecimal hk hx hspells
  · cases h

/-- A number in decimal that takes all of a text is an integer, written with its digits, or a
double. -/
theorem written_of_readDecimal (h : readDecimal cs = .ok (kind, cs.length)) :
    Written kind cs ∨ ∃ x, kind = .literal (.float x) := by
  unfold readDecimal at h
  dsimp only at h
  split at h
  · rename_i hnone
    rw [Bool.and_eq_true, List.isEmpty_iff, List.isEmpty_iff] at hnone
    rw [hnone.2, hnone.1, List.append_nil, List.append_nil] at h
    split at h
    · rename_i k hread
      obtain ⟨rfl, hlength⟩ := Prod.mk.inj (Except.ok.inj h)
      have hwhole : cs.takeWhile isDigit = cs := takeWhile_eq_self_of_length hlength
      rw [hwhole] at hread
      obtain ⟨n, hk, hspells⟩ :=
        exists_spells_of_readInt (.inl rfl) (List.takeWhile_eq_self_iff.mp hwhole) hread
      exact .inl (.decimal hk hspells)
    · cases h
  · split at h
    · obtain ⟨rfl, -⟩ := Prod.mk.inj (Except.ok.inj h)
      exact .inr ⟨_, rfl⟩
    · cases h

theorem written_of_readNumber (h : readNumber cs = .ok (kind, cs.length)) :
    Written kind cs ∨ ∃ x, kind = .literal (.float x) := by
  unfold readNumber at h
  split at h
  · exact .inl (written_of_readHex rfl h)
  · exact .inl (written_of_readHex rfl h)
  · exact written_of_readDecimal h

theorem written_of_ofWord {word : String} (h : ofWord word = .literal v) :
    Written (.literal v) word.toList := by
  unfold ofWord at h
  split at h
  · rename_i htrue
    cases h
    rw [beq_iff_eq.mp htrue]
    exact .bool true
  · split at h
    · rename_i hfalse
      cases h
      rw [beq_iff_eq.mp hfalse]
      exact .bool false
    · split at h
      · cases h
      · cases h

theorem nameFrom_of_length (h : (nameFrom c rest).length = rest.length + 1) :
    nameFrom c rest = c :: rest := by
  rw [nameFrom_eq_cons] at h ⊢
  rw [(nameTail_isPrefix rest).eq_of_length (Nat.succ.inj h)]

theorem written_of_lexeme (h : Lexeme (.literal v) own) (hv : v.type = .bool ∨ v.type = .int) :
    Written (.literal v) own := by
  obtain ⟨c, more, rfl, -, hread⟩ := h
  rcases readFrom_cases hread with ⟨m, hm⟩ | ⟨s, hs⟩ | hdigit | hname
  · cases hm
  · cases hs
    simp [Value.type] at hv
  · rw [readFrom_of_isDigit hdigit] at hread
    rcases written_of_readNumber hread with hwritten | ⟨x, hx⟩
    · exact hwritten
    · cases hx
      simp [Value.type] at hv
  · rw [readFrom_of_isNameStart hname] at hread
    obtain ⟨hword, hlength⟩ := Prod.mk.inj (Except.ok.inj hread)
    have hwritten := written_of_ofWord hword
    rwa [String.toList_ofList, nameFrom_of_length hlength] at hwritten

/-- A written form of a literal is a spelling of its value. -/
theorem Written.spelling (h : Written (.literal v) own) (hv : v.type = .bool ∨ v.type = .int) :
    Value.Spelling v own := by
  cases h with
  | decimal hk hspells => exact .int (.decimal (hk ▸ .bare hspells))
  | hexadecimal hk hx hspells => exact .int (hk ▸ .hexadecimal hx hspells)
  | string s => simp [Value.type] at hv
  | bool b => exact .bool b

/-- Literals mean the same inside and outside of expressions.  A text whose only token is a truth
value or an integer stands for that value. -/
theorem ofLiteral_of_scan (s : String) (v : Value) (position stop : Nat)
    (hv : v.type = .bool ∨ v.type = .int)
    (h : scan s = .ok ⟨[⟨.literal v, position⟩], stop⟩) : Value.ofLiteral s = v := by
  have htiled := tiled_of_scan h
  generalize hcs : s.toList = cs at htiled
  cases htiled with
  | token hlead hown hrest =>
      cases hrest with
      | blanks hgap =>
          have hspelling := (written_of_lexeme hown hv).spelling hv
          rw [← String.ofList_toList (s := s), hcs]
          exact Value.ofLiteral_of_spelling hspelling hlead hgap

theorem ofLiteral_of_scan_hexadecimal :
    scan "\u3000\t0X00fF\n" = .ok ⟨[⟨.literal (.int 255), 2⟩], 9⟩ ∧
      Value.ofLiteral "\u3000\t0X00fF\n" = .int 255 := by
  have hscan : scan "\u3000\t0X00fF\n" = .ok ⟨[⟨.literal (.int 255), 2⟩], 9⟩ :=
    eq_ok_of_toOption (by decide +kernel)
  exact ⟨hscan, ofLiteral_of_scan _ _ _ _ (.inr rfl) hscan⟩

end Token

end Preprocessor
