/-
Tokens tile the text.

A text that can be scanned consists of blanks and of the characters of its tokens, in order and with
nothing between them: no character is lost and none is read twice.  A token and the blanks after it
can be cut out and are then the whole of a text with this one token.  Faults stand inside the text,
or at its end if it could be scanned.
-/
import Preprocessor.Proofs.FaultPositions
import Preprocessor.Proofs.TokenEnds

namespace Preprocessor

namespace Token

/-- `Tiled position cs items stop`: after `position` characters, a text goes on with the characters
`cs` of these tokens and of blanks around them, and ends at `stop`. -/
inductive Tiled : Nat → List Char → List Token → Nat → Prop
  | blanks {position : Nat} {cs : List Char} : (∀ c ∈ cs, Text.isBlank c = true) →
      Tiled position cs [] (position + cs.length)
  | token {position : Nat} {lead own rest : List Char} {kind : TokenKind} {items : List Token}
      {stop : Nat} : (∀ c ∈ lead, Text.isBlank c = true) → Lexeme kind own →
      Tiled (position + lead.length + own.length) rest items stop →
      Tiled position (lead ++ own ++ rest) (⟨kind, position + lead.length⟩ :: items) stop

theorem Lexeme.length_pos {kind : TokenKind} {own : List Char} (h : Lexeme kind own) :
    0 < own.length := by
  obtain ⟨c, more, rfl, -⟩ := h
  exact Nat.succ_pos _

/-! ## Scanning tiles the text -/

theorem Tiled.blank {position : Nat} {c : Char} {cs : List Char} {items : List Token} {stop : Nat}
    (hc : Text.isBlank c = true) (h : Tiled (position + 1) cs items stop) :
    Tiled position (c :: cs) items stop := by
  have hblank {lead : List Char} (hlead : ∀ d ∈ lead, Text.isBlank d = true) :
      ∀ d ∈ c :: lead, Text.isBlank d = true :=
    List.forall_mem_cons.mpr ⟨hc, hlead⟩
  have hlength (lead : List Char) : position + 1 + lead.length = position + (c :: lead).length := by
    rw [List.length_cons]
    omega
  cases h with
  | blanks hcs =>
      rw [hlength]
      exact .blanks (hblank hcs)
  | token hlead hown hrest =>
      rw [hlength] at hrest ⊢
      exact .token (hblank hlead) hown hrest

theorem tiled_of_scanFrom {position : Nat} {cs : List Char} {tokens : Tokens}
    (h : scanFrom position cs = .ok tokens) : Tiled position cs tokens.items tokens.stop := by
  fun_induction scanFrom position cs generalizing tokens with
  | case1 position =>
      cases h
      exact .blanks (List.forall_mem_nil _)
  | case2 position c rest hblank ih => exact .blank hblank (ih h)
  | case3 => cases h
  | case4 position c rest hblank kind count hread ih =>
      obtain ⟨more, hmore, rfl⟩ := exists_of_map_eq_ok h
      obtain ⟨own, after, rfl, rfl, hown⟩ := exists_lexeme (Bool.eq_false_iff.mpr hblank) hread
      have htiled := ih hmore
      rw [Nat.add_sub_cancel, List.drop_left, Nat.max_eq_right (Nat.le_add_left 1 _)] at htiled
      exact .token (List.forall_mem_nil _) hown htiled

/-- A fault of the scan is at a character of the text. -/
theorem position_of_scanFrom {position : Nat} {cs : List Char} {err : ParseError}
    (h : scanFrom position cs = .error err) : err.position < position + cs.length := by
  fun_induction scanFrom position cs with
  | case1 => cases h
  | case2 position c rest hblank ih =>
      have := ih h
      rw [List.length_cons]
      omega
  | case3 position c rest hblank distance fault hread =>
      cases h
      have := (local_readFrom c).fault hread
      show position + distance < _
      rw [List.length_cons]
      omega
  | case4 position c rest hblank kind count hread ih =>
      obtain ⟨own, after, rfl, rfl, -⟩ := exists_lexeme (Bool.eq_false_iff.mpr hblank) hread
      rw [Nat.add_sub_cancel, List.drop_left, Nat.max_eq_right (Nat.le_add_left 1 _)] at h ih
      cases hmore : scanFrom (position + (own.length + 1)) after with
      | ok tokens =>
          rw [hmore] at h
          cases h
      | error err' =>
          rw [hmore] at h
          cases h
          have := ih hmore
          rw [List.length_cons, List.length_append]
          omega

/-! ## What a tiling says -/

namespace Tiled

variable {position stop : Nat} {cs : List Char} {items : List Token}

theorem stop_eq (h : Tiled position cs items stop) : stop = position + cs.length := by
  induction h with
  | blanks _ => rfl
  | token _ _ _ ih =>
      rw [ih]
      simp only [List.length_append]
      omega

theorem le_of_mem (h : Tiled position cs items stop) :
    ∀ p ∈ items.map Token.position ++ [stop], position ≤ p := by
  induction h with
  | blanks _ =>
      intro p hp
      rw [List.map_nil, List.nil_append, List.mem_singleton] at hp
      omega
  | token _ _ _ ih =>
      rw [List.map_cons, List.cons_append]
      refine List.forall_mem_cons.mpr ⟨Nat.le_add_right _ _, fun p hp => ?_⟩
      have := ih p hp
      omega

theorem pairwise_lt (h : Tiled position cs items stop) :
    (items.map Token.position ++ [stop]).Pairwise (· < ·) := by
  induction h with
  | blanks _ => exact List.pairwise_singleton _ _
  | token _ hown hrest ih =>
      rw [List.map_cons, List.cons_append]
      refine List.pairwise_cons.mpr ⟨fun p hp => ?_, ih⟩
      have := hrest.le_of_mem p hp
      have := hown.length_pos
      show _ + _ < p
      omega

theorem exists_lead (h : Tiled position cs items stop) :
    ∃ lead after, cs = lead ++ after ∧ (∀ c ∈ lead, Text.isBlank c = true) ∧
      Expr.positionOf stop items = position + lead.length := by
  cases h with
  | blanks hcs => exact ⟨cs, [], (List.append_nil cs).symm, hcs, rfl⟩
  | @token _ lead own rest _ _ _ hlead hown hrest =>
      exact ⟨lead, own ++ rest, List.append_assoc .., hlead, rfl⟩

/-- Between the beginning of a token and that of the next one are its characters and blanks. -/
theorem exists_slice (h : Tiled position cs items stop) {before after : List Token} {t : Token}
    (hitems : items = before ++ t :: after) :
    ∃ pre own gap post, cs = pre ++ (own ++ gap) ++ post ∧ Lexeme t.kind own ∧
      (∀ c ∈ gap, Text.isBlank c = true) ∧ t.position = position + pre.length ∧
      Expr.positionOf stop after = t.position + (own ++ gap).length := by
  induction h generalizing before with
  | blanks _ => simp at hitems
  | @token position lead own rest kind items stop hlead hown hrest ih =>
      cases before with
      | nil =>
          obtain ⟨rfl, rfl⟩ := List.cons.inj hitems
          obtain ⟨gap, post, rfl, hgap, hposition⟩ := hrest.exists_lead
          refine ⟨lead, own, gap, post, by simp, hown, hgap, rfl, ?_⟩
          rw [hposition, List.length_append]
          show _ = position + lead.length + _
          omega
      | cons first before =>
          obtain ⟨rfl, htail⟩ := List.cons.inj hitems
          obtain ⟨pre, own', gap, post, rfl, hown', hgap, hpos, hnext⟩ := ih htail
          refine ⟨lead ++ own ++ pre, own', gap, post, by simp, hown', hgap, ?_, hnext⟩
          rw [hpos, List.length_append, List.length_append]
          omega

end Tiled

/-! ## The tokens of a text -/

theorem Lexeme.scan_append {kind : TokenKind} {own gap : List Char} (h : Lexeme kind own)
    (hgap : ∀ c ∈ gap, Text.isBlank c = true) :
    scan (String.ofList (own ++ gap)) = .ok ⟨[⟨kind, 0⟩], (own ++ gap).length⟩ := by
  have hblanks := scanFrom_blanks hgap own.length []
  rw [List.append_nil, scanFrom] at hblanks
  rw [scan, String.toList_ofList, h.scanFrom_append (.of_blanks hgap), Nat.zero_add, hblanks,
    List.length_append]
  rfl

section

variable {s : String} {tokens : Tokens} {err : ParseError}

theorem tiled_of_scan (h : scan s = .ok tokens) : Tiled 0 s.toList tokens.items tokens.stop :=
  tiled_of_scanFrom h

theorem stop_of_scan (h : scan s = .ok tokens) : tokens.stop = s.length := by
  rw [(tiled_of_scan h).stop_eq, Nat.zero_add, String.length_toList]

theorem position_of_scan (h : scan s = .error err) : err.position < s.length := by
  have := position_of_scanFrom h
  rwa [Nat.zero_add, String.length_toList] at this

/-- A fault of reading a text is at one of its characters or at its end. -/
theorem position_of_faultOf (h : Expr.FaultOf s err) : err.position ≤ s.length := by
  rcases h with hscan | ⟨tokens, hscan, hposition⟩
  · exact Nat.le_of_lt (position_of_scan hscan)
  · rw [← stop_of_scan hscan]
    rcases List.mem_cons.mp hposition with hend | hitem
    · exact Nat.le_of_eq hend
    · have hincreasing := (tiled_of_scan hscan).pairwise_lt
      exact Nat.le_of_lt
        ((List.pairwise_append.mp hincreasing).2.2 _ hitem _ (List.mem_singleton_self _))

end

/-- Tokens tile the text, and faults stand in it.  If a text can be scanned, then the positions of
its tokens increase strictly up to the end of the text, what is before the first token is blank, and
the text from a token up to the next one, cut out, has this token and no other.  If it cannot be
scanned, then the fault is at one of its characters.  A fault of reading an expression or a list of
expressions is at a character or at the end. -/
theorem scan_tiles (s : String) :
    (∀ tokens, scan s = .ok tokens →
      (tokens.items.map Token.position ++ [tokens.stop]).Pairwise (· < ·) ∧
      tokens.stop = s.length ∧
      (∀ c ∈ s.toList.take (Expr.positionOf tokens.stop tokens.items), Text.isBlank c = true) ∧
      ∀ before t after, tokens.items = before ++ t :: after →
        let slice := s.toList.extract t.position (Expr.positionOf tokens.stop after)
        scan (String.ofList slice) = .ok ⟨[⟨t.kind, 0⟩], slice.length⟩) ∧
    (∀ err, scan s = .error err → err.position < s.length) ∧
    (∀ err, Expr.parse s = .error err → err.position ≤ s.length) ∧
    ∀ err, Expr.parseList s = .error err → err.position ≤ s.length := by
  refine ⟨fun tokens hscan => ?_, fun err => position_of_scan,
    fun err h => position_of_faultOf (Expr.faultOf_parse h),
    fun err h => position_of_faultOf (Expr.faultOf_parseList h)⟩
  have htiled := tiled_of_scan hscan
  refine ⟨htiled.pairwise_lt, stop_of_scan hscan, ?_, ?_⟩
  · obtain ⟨lead, after, hcs, hlead, hposition⟩ := htiled.exists_lead
    rw [hposition, hcs, Nat.zero_add, List.take_left]
    exact hlead
  · intro before t after hitems slice
    obtain ⟨pre, own, gap, post, hcs, hown, hgap, hposition, hnext⟩ := htiled.exists_slice hitems
    have hslice : slice = own ++ gap := by
      unfold slice
      rw [List.extract_eq_take_drop, hnext, Nat.add_sub_cancel_left, hposition, Nat.zero_add, hcs,
        List.append_assoc, List.drop_left, List.take_left]
    rw [hslice]
    exact hown.scan_append hgap

/-- Tokens with nothing between them are cut apart as well, and a fault can be at the last
character. -/
theorem scan_tiles_comparison :
    scan " size>=0x1F\t&&!é.b " =
        .ok ⟨[⟨.name "size", 1⟩, ⟨.mark .greaterEq, 5⟩, ⟨.literal (.int 31), 7⟩,
          ⟨.mark .andAnd, 12⟩, ⟨.mark .bang, 14⟩, ⟨.name "é.b", 15⟩], 19⟩ ∧
      scan "0x1F\t" = .ok ⟨[⟨.literal (.int 31), 0⟩], 5⟩ ∧
      ∃ err, scan "size &" = .error err ∧ err.position < 6 := by
  have hscan : scan " size>=0x1F\t&&!é.b " =
      .ok ⟨[⟨.name "size", 1⟩, ⟨.mark .greaterEq, 5⟩, ⟨.literal (.int 31), 7⟩, ⟨.mark .andAnd, 12⟩,
        ⟨.mark .bang, 14⟩, ⟨.name "é.b", 15⟩], 19⟩ :=
    eq_ok_of_toOption (by decide +kernel)
  obtain ⟨-, -, -, hslices⟩ := (scan_tiles " size>=0x1F\t&&!é.b ").1 _ hscan
  obtain ⟨err, hfault⟩ := exists_error_of_toOption (r := scan "size &") (by decide +kernel)
  exact ⟨hscan, hslices [_, _] _ _ rfl, err, hfault, (scan_tiles "size &").2.1 err hfault⟩

end Token

end Preprocessor
