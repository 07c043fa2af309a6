/-
Reading in place is safe, ends, and agrees with reading lists of tokens.

From a cursor among the slots every routine comes to an end among the slots, at or behind the place
where it began, with the levels open that were open before.  A clock that is ahead of the number of
tokens left does not run down, since every round of a loop and every call of a reader of operands
inside another comes behind a token that was taken; the levels of operators between two such calls
are counted down by themselves.

The levels are the delicate part.  Opening a level leaves one more open than before, and a chain of
operators opens one with each of its operators and closes none.  Every other routine gives back
what it found.  The levels of a chain are closed by the reader of operators that began it, also
after a fault.
-/
import Preprocessor.Proofs.CursorChains
import Preprocessor.Proofs.TokenTiling

namespace Preprocessor

namespace InPlace

variable {α β : Type} {ts : Tokens} {c : Cursor} {limit : Nat}

/-! ## Operands -/

/-- Whether a mark is in front of tokens, and the tokens without it. -/
def taken (m : Mark) (us : List Token) : Bool × List Token :=
  if us.head?.map Token.kind = some (.mark m) then (true, us.tail) else (false, us)

theorem taken_cases (ts : Tokens) (m : Mark) (us : List Token) :
    (∃ position rest, us = ⟨.mark m, position⟩ :: rest ∧ taken m us = (true, rest)) ∨
      (ts.front us).1 ≠ some (.mark m) ∧ taken m us = (false, us) := by
  have hfront : (ts.front us).1 = us.head?.map Token.kind := by cases us <;> rfl
  unfold taken
  by_cases h : us.head?.map Token.kind = some (.mark m)
  · obtain ⟨t, ht, hkind⟩ := Option.map_eq_some_iff.mp h
    obtain ⟨rest, rfl⟩ := List.head?_eq_some_iff.mp ht
    obtain ⟨kind, position⟩ := t
    subst hkind
    exact .inl ⟨position, rest, rfl, if_pos h⟩
  · exact .inr ⟨hfront ▸ h, if_neg h⟩

theorem taken_of_ne {m : Mark} {us : List Token}
    (h : ∀ position rest, us = ⟨.mark m, position⟩ :: rest → False) :
    taken m us = (false, us) := by
  rcases taken_cases ⟨[], 0⟩ m us with ⟨position, rest, hus, -⟩ | ⟨-, htaken⟩
  · exact (h position rest hus).elim
  · exact htaken

theorem follows_eat (hc : c.Valid ts) (m : Mark) :
    ∃ c', Follows ts (eat ts m) c c' (.ok (taken m (ts.from c))) ∧ c'.depth = c.depth := by
  rcases taken_cases ts m (ts.from c) with ⟨position, rest, hfrom, htaken⟩ | ⟨hne, htaken⟩
  · obtain ⟨hlt, hrest⟩ := Tokens.from_next hfrom
    rw [htaken, ← hrest]
    have hpure := follows_pure (hc.next hlt) true
    exact ⟨c.next, { hpure with ends := ends_eat hc hfrom, forward := Nat.le_succ _ }, rfl⟩
  · rw [htaken]
    exact ⟨c, { follows_pure hc false with ends := ends_eat_of_ne hc hne }, rfl⟩

theorem parseClose_eq (stop : Nat) (m : Mark) (us : List Token) :
    Expr.parseClose stop m us =
      if (taken m us).1 then .ok (taken m us).2 else Expr.faultAt stop us (.expected m) := by
  unfold Expr.parseClose taken
  cases us with
  | nil => rfl
  | cons t rest =>
      obtain ⟨kind, position⟩ := t
      cases kind with
      | literal v => rfl
      | name s => rfl
      | mark m' => by_cases hm : m' = m <;> simp [hm]

theorem follows_expect (hc : c.Valid ts) (m : Mark) :
    ∃ c', Follows ts (expect ts m) c c'
        ((Expr.parseClose ts.stop m (ts.from c)).map fun rest => ((), rest)) ∧
      c'.depth = c.depth := by
  rw [parseClose_eq]
  rcases taken_cases ts m (ts.from c) with ⟨position, rest, hfrom, htaken⟩ | ⟨hne, htaken⟩
  · obtain ⟨hlt, hrest⟩ := Tokens.from_next hfrom
    rw [htaken, ← hrest]
    have hpure := follows_pure (hc.next hlt) ()
    exact ⟨c.next, { hpure with ends := ends_expect hc hfrom, forward := Nat.le_succ _ }, rfl⟩
  · rw [htaken]
    exact ⟨c, .of_error (ends_expect_of_ne hc hne) le_rfl hc le_rfl, rfl⟩

theorem follows_closed (hc : c.Valid ts) (m : Mark) (a : α) :
    ∃ c', Follows ts (do expect ts m; return a) c c'
        (Expr.parseClose ts.stop m (ts.from c) >>= fun rest => pure (a, rest)) ∧
      c'.depth = c.depth := by
  obtain ⟨c', hexpect, hdepth⟩ := follows_expect hc m
  refine ⟨c', ?_, hdepth⟩
  cases hclose : Expr.parseClose ts.stop m (ts.from c) with
  | error e =>
      rw [hclose] at hexpect
      exact hexpect.bind_error
  | ok rest =>
      rw [hclose] at hexpect
      have hpure := follows_pure hexpect.valid a
      rw [hexpect.rest () rest rfl] at hpure
      exact hexpect.bind_ok hpure

variable {item : InPlace Expr}

/-- What follows an item of a list: a comma before more of them, or the closing mark. -/
def separated (stop : Nat) (close : Mark) (e : Expr) (us : List Token) :
    Except ParseError ((Expr × Bool) × List Token) :=
  if (taken .comma us).1 then .ok ((e, true), (taken .comma us).2)
  else Expr.parseClose stop close us >>= fun rest => pure ((e, false), rest)

theorem parseItems_succ (stop : Nat) (close : Mark) (read : Expr.Parser Expr) (bound : Nat)
    (us : List Token) :
    Expr.parseItems stop close read (bound + 1) us =
      ((read us >>= fun o => separated stop close o.1 o.2) >>= fun o =>
        if o.1.2 then
          Expr.parseItems stop close read bound o.2 >>= fun r => pure (o.1.1 :: r.1, r.2)
        else pure ([o.1.1], o.2)) := by
  rw [Expr.parseItems]
  cases read us with
  | error e => rfl
  | ok o =>
      obtain ⟨e, rest⟩ := o
      dsimp only [Bind.bind, Except.bind, separated]
      split
      · rfl
      · rename_i hcomma
        rw [taken_of_ne hcomma, if_neg Bool.false_ne_true]
        cases Expr.parseClose stop close rest <;> rfl

theorem eq_of_taken {m : Mark} {us rest : List Token} (h : taken m us = (false, rest)) :
    rest = us := by
  unfold taken at h
  split at h
  · cases h
  · exact (congrArg Prod.snd h).symm

theorem follows_separator (hc : c.Valid ts) (close : Mark) (e : Expr) :
    ∃ c', Follows ts (do
        let more ← eat ts .comma
        if more then return (e, true)
        else
          expect ts close
          return (e, false)) c c' (separated ts.stop close e (ts.from c)) ∧ c'.depth = c.depth := by
  obtain ⟨c₁, heat, hdepth⟩ := follows_eat hc .comma
  unfold separated
  rcases htaken : taken .comma (ts.from c) with ⟨more, rest⟩
  rw [htaken] at heat
  have hrest : ts.from c₁ = rest := heat.rest more rest rfl
  cases more with
  | true =>
      have hpure := follows_pure heat.valid (e, true)
      rw [hrest] at hpure
      exact ⟨c₁, heat.bind_ok hpure, hdepth⟩
  | false =>
      obtain ⟨c₂, hclosed, hdepth₂⟩ := follows_closed heat.valid close (e, false)
      rw [hrest, eq_of_taken htaken] at hclosed
      exact ⟨c₂, heat.bind_ok hclosed, hdepth₂.trans hdepth⟩

theorem reads_argument {p : Except ParseError (Expr × List Token)} (close : Mark)
    (hitem : ∃ c₁, Reads ts (nested ts item) c c₁ p) :
    ∃ c', Reads ts (argument ts item close) c c'
      (p >>= fun o => separated ts.stop close o.1 o.2) := by
  obtain ⟨c', h⟩ := Reads.bind (q := fun o => separated ts.stop close o.1 o.2) hitem
    fun e c₁ hc₁ _ hdepth => by
      obtain ⟨c₂, hseparator, hdepth₂⟩ := follows_separator hc₁ close e
      exact ⟨c₂, hseparator, hdepth₂.trans hdepth⟩
  exact ⟨c', h.called .argumentRound⟩

/-- The loop over the items of a bracket ends, since each round takes a token. -/
theorem reads_argumentsFrom (hitem : Performs ts limit (nested ts item) (Expr.parseNested ts.stop))
    (close : Mark) {clock bound : Nat} (hc : c.Valid ts)
    (hlimit : ts.items.length - c.index < limit) (hclock : ts.items.length - c.index < clock)
    (hbound : ts.items.length - c.index < bound) :
    ∃ c', Reads ts (argumentsFrom ts item close clock) c c'
      (Expr.parseItems ts.stop close (Expr.parseNested ts.stop (Expr.maxNesting - c.depth)) bound
        (ts.from c)) := by
  induction clock generalizing c bound with
  | zero => exact absurd hclock (Nat.not_lt_zero _)
  | succ clock ih =>
      cases bound with
      | zero => exact absurd hbound (Nat.not_lt_zero _)
      | succ bound =>
          rw [parseItems_succ]
          refine Reads.bind (reads_argument close (hitem c hc hlimit)) ?_
          intro o c₁ hc₁ hforward hdepth
          have hinside := hc₁.inside
          obtain ⟨e, more⟩ := o
          cases more with
          | false => exact ⟨c₁, follows_pure hc₁ [e], hdepth⟩
          | true =>
              have hmore := ih hc₁ (by omega) (by omega)
                (show ts.items.length - c₁.index < bound by omega)
              rw [hdepth] at hmore
              obtain ⟨c₂, h⟩ := Reads.map (e :: ·) hmore
              exact ⟨c₂, h.toFollows, h.restored.trans hdepth⟩

theorem performs_arguments (hitem : Performs ts limit (nested ts item) (Expr.parseNested ts.stop))
    {clock : Nat} (hclock : limit ≤ clock) (close : Mark) :
    Performs ts limit (arguments ts item close clock) fun room =>
      Expr.parseBracket ts.stop close (Expr.parseNested ts.stop room) := by
  intro c hc hlimit
  dsimp only
  unfold Expr.parseBracket
  rw [parseClose_eq]
  rcases taken_cases ts close (ts.from c) with ⟨position, rest, hfrom, htaken⟩ | ⟨hne, htaken⟩
  · obtain ⟨hlt, hrest⟩ := Tokens.from_next hfrom
    have hpure := follows_pure (hc.next hlt) ([] : List Expr)
    rw [hrest] at hpure
    rw [htaken]
    refine ⟨c.next, Reads.called ?_ .arguments⟩
    exact Reads.after_token (ends_eat hc hfrom) hpure rfl
  · rw [htaken]
    have hlength : (ts.from c).length = ts.items.length - c.index := List.length_drop
    obtain ⟨c', h⟩ := reads_argumentsFrom hitem close hc hlimit (hlimit.trans_le hclock)
      (Nat.lt_succ_of_le hlength.ge)
    exact ⟨c', (Reads.after_look (ends_eat_of_ne hc hne) h).called .arguments⟩

theorem parsePrimary_name (stop room position : Nat) (s : String) (rest : List Token) :
    Expr.parsePrimary stop room (⟨.name s, position⟩ :: rest) =
      if (taken .openParen rest).1 then
        Expr.parseBracket stop .closeParen (Expr.parseNested stop room)
          (taken .openParen rest).2 >>= fun o => pure (.call s o.1, o.2)
      else .ok (.name s, rest) := by
  rcases taken_cases ⟨[], 0⟩ .openParen rest with ⟨position', more, rfl, htaken⟩ | ⟨hne, htaken⟩
  · rw [Expr.parsePrimary.eq_def, htaken]
    rfl
  · have hopen : ∀ position' more, rest = ⟨.mark .openParen, position'⟩ :: more → False := by
      rintro position' more rfl
      exact hne rfl
    rw [Expr.parsePrimary.eq_4 _ _ _ _ _ hopen, htaken]
    rfl

theorem follows_name (hitem : Performs ts limit (nested ts item) (Expr.parseNested ts.stop))
    {clock : Nat} (hclock : limit ≤ clock) (hc : c.Valid ts)
    (hlimit : ts.items.length - c.index < limit) (s : String) :
    ∃ c', Follows ts (do
        let opened ← eat ts .openParen
        if opened then return Expr.call s (← arguments ts item .closeParen clock)
        else return Expr.name s) c c'
        (if (taken .openParen (ts.from c)).1 then
          Expr.parseBracket ts.stop .closeParen
            (Expr.parseNested ts.stop (Expr.maxNesting - c.depth))
            (taken .openParen (ts.from c)).2 >>= fun o => pure (Expr.call s o.1, o.2)
        else .ok (Expr.name s, ts.from c)) ∧ c'.depth = c.depth := by
  rcases taken_cases ts .openParen (ts.from c) with ⟨position, rest, hfrom, htaken⟩ | ⟨hne, htaken⟩
  · obtain ⟨hlt, hrest⟩ := Tokens.from_next hfrom
    have hlimit₁ := Cursor.left_next hlt (Nat.lt_succ_of_lt hlimit)
    obtain ⟨c', h⟩ := Reads.map (Expr.call s)
      (performs_arguments hitem hclock .closeParen c.next (hc.next hlt) hlimit₁)
    rw [hrest] at h
    rw [htaken]
    exact ⟨c', (Reads.after_token (ends_eat hc hfrom) h.toFollows h.restored).toFollows, h.restored⟩
  · rw [htaken]
    exact ⟨c, (follows_pure hc (Expr.name s)).after_look (ends_eat_of_ne hc hne), rfl⟩

theorem performs_primary
    (hitem : Performs ts limit item fun room => Expr.parseLevel ts.stop room BinaryOp.levels)
    {clock : Nat} (hclock : limit ≤ clock) :
    Performs ts (limit + 1) (primary ts item clock) (Expr.parsePrimary ts.stop) := by
  intro c hc hlimit
  have hnested := performs_nested hitem
  cases hfrom : ts.from c with
  | nil =>
      rw [Expr.parsePrimary.eq_def]
      refine ⟨c, Reads.called (.of_error ((ends_advance_of_nil hc hfrom).bind_ok ?_) le_rfl hc rfl)
        .primary⟩
      exact .throw _
  | cons t rest =>
      obtain ⟨kind, position⟩ := t
      obtain ⟨hlt, rfl⟩ := Tokens.from_next hfrom
      have hc₁ := hc.next hlt
      have hlimit₁ := Cursor.left_next hlt hlimit
      -- every form begins with the token that is taken here, and goes on behind it
      have htoken {f : Option TokenKind × Nat → InPlace Expr}
          {p : Except ParseError (Expr × List Token)}
          (h : ∃ c', Follows ts (f (some kind, position)) c.next c' p ∧ c'.depth = c.next.depth) :
          ∃ c', Reads ts (called .primary (advance ts >>= f)) c c' p := by
        obtain ⟨c', h, hdepth⟩ := h
        exact ⟨c', (Reads.after_token (ends_advance hc hfrom) h hdepth).called .primary⟩
      cases kind with
      | literal v =>
          rw [Expr.parsePrimary.eq_def]
          exact htoken ⟨c.next, follows_pure hc₁ (Expr.literal v), rfl⟩
      | name s =>
          rw [parsePrimary_name]
          exact htoken (follows_name hnested hclock hc₁ hlimit₁ s)
      | mark m =>
          rw [Expr.parsePrimary.eq_def]
          cases m with
          | openParen =>
              obtain ⟨c', h⟩ := Reads.bind
                (q := fun o =>
                  Expr.parseClose ts.stop .closeParen o.2 >>= fun rest => pure (o.1, rest))
                (hnested c.next hc₁ hlimit₁) fun inner c₂ hc₂ _ hdepth => by
                  obtain ⟨c₃, hclosed, hdepth₃⟩ := follows_closed hc₂ .closeParen inner
                  exact ⟨c₃, hclosed, hdepth₃.trans hdepth⟩
              exact htoken ⟨c', h.toFollows, h.restored⟩
          | openBrace =>
              obtain ⟨c', h⟩ := Reads.map Expr.set
                (performs_arguments hnested hclock .closeBrace c.next hc₁ hlimit₁)
              exact htoken ⟨c', h.toFollows, h.restored⟩
          | _ => exact htoken ⟨c.next, .of_error (.throw _) le_rfl hc₁ le_rfl, rfl⟩

theorem parseUnary_of_none {stop room : Nat} {us : List Token}
    (h : leadingOperator? (ts.front us).1 = none) :
    Expr.parseUnary stop room us = Expr.parsePrimary stop room us := by
  rw [Expr.parseUnary.eq_def]
  cases us with
  | nil => rfl
  | cons t rest =>
      obtain ⟨kind, position⟩ := t
      cases kind with
      | literal v => rfl
      | name s => rfl
      | mark m =>
          have hmark : m.unaryOp? = none := h
          dsimp only
          rw [hmark]

theorem exists_of_leadingOperator? {us : List Token} {op : UnaryOp}
    (h : leadingOperator? (ts.front us).1 = some op) :
    ∃ m position rest, us = ⟨.mark m, position⟩ :: rest ∧ m.unaryOp? = some op := by
  cases us with
  | nil => cases h
  | cons t rest =>
      obtain ⟨kind, position⟩ := t
      cases kind with
      | literal v => cases h
      | name s => cases h
      | mark m => exact ⟨m, position, rest, rfl, h⟩

theorem reads_leading {clock : Nat}
    (hoperand : Performs ts limit (unary ts clock) (Expr.parseUnary ts.stop)) (hc : c.Valid ts)
    (hlimit : ts.items.length - c.index < limit + 1) {m : Mark} {position : Nat} {rest : List Token}
    (hfrom : ts.from c = ⟨.mark m, position⟩ :: rest) {op : UnaryOp} (hop : m.unaryOp? = some op) :
    ∃ c', Reads ts (do
        let _ ← advance ts
        let operand ← nested ts (unary ts clock)
        return Expr.unary op operand) c c'
      (Expr.parseUnary ts.stop (Expr.maxNesting - c.depth) (ts.from c)) := by
  obtain ⟨hlt, rfl⟩ := Tokens.from_next hfrom
  have hc₁ := hc.next hlt
  have hlimit₁ := Cursor.left_next hlt hlimit
  have hdepth₁ : c.next.depth = c.depth := rfl
  rw [hfrom, Expr.parseUnary.eq_def]
  dsimp only
  rw [hop, ← hdepth₁]
  cases hroom : Expr.maxNesting - c.next.depth with
  | zero =>
      have hfull := reads_nested_of_full (x := unary ts clock) hc₁ hroom
      exact ⟨c.next, Reads.after_token (ends_advance hc hfrom) hfull.toFollows.bind_error rfl⟩
  | succ room =>
      obtain ⟨hdepth, hinner⟩ := Cursor.room_inner hroom
      have hread := hoperand c.next.inner (hc₁.inner hdepth) hlimit₁
      rw [hinner] at hread
      obtain ⟨c', h⟩ := Reads.map (Expr.unary op) (reads_nested hc₁ hdepth hread)
      exact ⟨c', Reads.after_token (ends_advance hc hfrom) h.toFollows h.restored⟩

/-- A clock that is ahead of the tokens left is enough: it ticks once for a reader of operands
inside another, which comes behind a token. -/
theorem performs_unary (ts : Tokens) (clock : Nat) :
    Performs ts clock (unary ts clock) (Expr.parseUnary ts.stop) := by
  induction clock with
  | zero => exact fun c _ hlimit => absurd hlimit (Nat.not_lt_zero _)
  | succ clock ih =>
      intro c hc hlimit
      rw [unary]
      cases hop : leadingOperator? (ts.front (ts.from c)).1 with
      | none =>
          rw [parseUnary_of_none hop]
          obtain ⟨c', h⟩ := performs_primary (performs_level ih le_rfl BinaryOp.levels) le_rfl c hc
            hlimit
          refine ⟨c', Reads.called (Reads.after_look (ends_peek hc) ?_) .unary⟩
          rw [hop]
          exact h
      | some op =>
          obtain ⟨m, position, rest, hfrom, hmark⟩ := exists_of_leadingOperator? hop
          obtain ⟨c', h⟩ := reads_leading ih hc hlimit hfrom hmark
          refine ⟨c', Reads.called (Reads.after_look (ends_peek hc) ?_) .unary⟩
          rw [hop]
          exact h

theorem performs_expression (ts : Tokens) (clock : Nat) :
    Performs ts clock (expression ts clock) fun room =>
      Expr.parseLevel ts.stop room BinaryOp.levels :=
  performs_level (performs_unary ts clock) le_rfl BinaryOp.levels

/-! ## Whole texts -/

theorem Reads.then_ends {x : InPlace α} {f : α → InPlace β}
    {p : Except ParseError (α × List Token)}
    {q : α × List Token → Except ParseError β} (hx : ∃ c₁, Reads ts x c c₁ p)
    (hf : ∀ a c₁, c₁.Valid ts → c.index < c₁.index → c₁.depth = c.depth →
      ∃ c₂, Ends ts (f a) c₁ (q (a, ts.from c₁)) c₂) :
    ∃ c₂, Ends ts (x >>= f) c (p >>= q) c₂ := by
  obtain ⟨c₁, hx⟩ := hx
  cases p with
  | error e => exact ⟨c₁, Ends.bind_error hx.ends⟩
  | ok o =>
      obtain ⟨a, rest⟩ := o
      obtain ⟨c₂, hf⟩ := hf a c₁ hx.valid (hx.progress a rest rfl) hx.restored
      rw [hx.rest a rest rfl] at hf
      exact ⟨c₂, Ends.bind_ok hx.ends hf⟩

theorem ends_final (hc : c.Valid ts) (a : α) :
    Ends ts (do expectEnd ts; return a) c
      (Expr.parseEnd ts.stop (ts.from c) >>= fun _ => pure a) c := by
  have hend := ends_expectEnd hc
  cases hparse : Expr.parseEnd ts.stop (ts.from c) with
  | error e =>
      rw [hparse] at hend
      exact hend.bind_error
  | ok u =>
      rw [hparse] at hend
      exact hend.bind_ok (.pure a)

theorem ends_single (hc : c.Valid ts) (hdepth : c.depth = 0) {clock : Nat}
    (hclock : ts.items.length - c.index < clock) :
    ∃ c', Ends ts (single ts clock) c (Expr.parseOne ts.stop (ts.from c) >>= fun o =>
      Expr.parseEnd ts.stop o.2 >>= fun _ => pure o.1) c' := by
  have hread := performs_expression ts clock c hc hclock
  rw [hdepth] at hread
  exact Reads.then_ends hread fun e c₁ hc₁ _ _ => ⟨c₁, ends_final hc₁ e⟩

theorem reads_listed {item : InPlace Expr} {p : Except ParseError (Expr × List Token)}
    (hitem : ∃ c₁, Reads ts item c c₁ p) :
    ∃ c', Reads ts (listed ts item) c c'
      (p >>= fun o => pure ((o.1, (taken .comma o.2).1), (taken .comma o.2).2)) := by
  have hcomma (e : Expr) (c₁ : Cursor) (hc₁ : c₁.Valid ts) :
      ∃ c₂, Follows ts (do return (e, ← eat ts .comma)) c₁ c₂
          (.ok ((e, (taken .comma (ts.from c₁)).1), (taken .comma (ts.from c₁)).2)) ∧
        c₂.depth = c₁.depth := by
    obtain ⟨c₂, heat, hdepth⟩ := follows_eat hc₁ .comma
    generalize taken .comma (ts.from c₁) = o at heat ⊢
    have hpure := follows_pure heat.valid (e, o.1)
    rw [heat.rest o.1 o.2 rfl] at hpure
    exact ⟨c₂, Follows.bind_ok heat hpure, hdepth⟩
  obtain ⟨c', h⟩ := Reads.bind
    (q := fun o => pure ((o.1, (taken .comma o.2).1), (taken .comma o.2).2)) hitem
    fun e c₁ hc₁ _ hdepth => by
      obtain ⟨c₂, h, hdepth₂⟩ := hcomma e c₁ hc₁
      exact ⟨c₂, h, hdepth₂.trans hdepth⟩
  exact ⟨c', h.called .listRound⟩

theorem parseUntilEnd_succ (stop bound : Nat) (us : List Token) :
    Expr.parseUntilEnd stop (bound + 1) us =
      ((Expr.parseOne stop us >>= fun o =>
          pure ((o.1, (taken .comma o.2).1), (taken .comma o.2).2)) >>= fun o =>
        if o.1.2 then Expr.parseUntilEnd stop bound o.2 >>= fun es => pure (o.1.1 :: es)
        else Expr.parseEnd stop o.2 >>= fun _ => pure [o.1.1]) := by
  rw [Expr.parseUntilEnd]
  cases Expr.parseOne stop us with
  | error e => rfl
  | ok o =>
      obtain ⟨e, rest⟩ := o
      dsimp only [Bind.bind, Except.bind]
      split
      · rfl
      · rename_i hcomma
        dsimp only [Pure.pure, Except.pure]
        rw [taken_of_ne hcomma, if_neg Bool.false_ne_true]

/-- The loop over the expressions of a list ends, since each round takes a token. -/
theorem ends_listFrom {item : InPlace Expr}
    (hitem : Performs ts limit item fun room => Expr.parseLevel ts.stop room BinaryOp.levels)
    {clock bound : Nat} (hc : c.Valid ts) (hdepth : c.depth = 0)
    (hlimit : ts.items.length - c.index < limit) (hclock : ts.items.length - c.index < clock)
    (hbound : ts.items.length - c.index < bound) :
    ∃ c', Ends ts (listFrom ts item clock) c (Expr.parseUntilEnd ts.stop bound (ts.from c)) c' := by
  induction clock generalizing c bound with
  | zero => exact absurd hclock (Nat.not_lt_zero _)
  | succ clock ih =>
      cases bound with
      | zero => exact absurd hbound (Nat.not_lt_zero _)
      | succ bound =>
          have hread := hitem c hc hlimit
          rw [hdepth] at hread
          rw [parseUntilEnd_succ]
          refine Reads.then_ends (reads_listed hread) ?_
          intro o c₁ hc₁ hforward hdepth₁
          have hinside := hc₁.inside
          obtain ⟨e, more⟩ := o
          cases more with
          | false => exact ⟨c₁, ends_final hc₁ [e]⟩
          | true =>
              obtain ⟨c₂, hmore⟩ := ih hc₁ (hdepth₁.trans hdepth) (by omega) (by omega)
                (show ts.items.length - c₁.index < bound by omega)
              refine ⟨c₂, ?_⟩
              dsimp only
              cases hlist : Expr.parseUntilEnd ts.stop bound (ts.from c₁) with
              | error err =>
                  rw [hlist] at hmore
                  exact hmore.bind_error
              | ok es =>
                  rw [hlist] at hmore
                  exact hmore.bind_ok (.pure (e :: es))

theorem ends_several (hc : c.Valid ts) (hdepth : c.depth = 0) {clock : Nat}
    (hclock : ts.items.length - c.index < clock) :
    ∃ c', Ends ts (several ts clock) c
      (if (ts.from c).isEmpty then .ok []
      else Expr.parseUntilEnd ts.stop ((ts.from c).length + 1) (ts.from c)) c' := by
  have hlength : (ts.from c).length = ts.items.length - c.index := List.length_drop
  obtain ⟨c', hlist⟩ := ends_listFrom (performs_expression ts clock) hc hdepth hclock hclock
    (Nat.lt_succ_of_le hlength.ge)
  rw [← Tokens.isNone_front]
  cases hnone : (ts.front (ts.from c)).1.isNone with
  | true =>
      refine ⟨c, (ends_peek hc).bind_ok ?_⟩
      rw [hnone]
      exact .pure []
  | false =>
      refine ⟨c', (ends_peek hc).bind_ok ?_⟩
      rw [hnone]
      exact hlist

theorem length_items_le {s : String} {ts : Tokens} (h : Token.scan s = .ok ts) :
    ts.items.length ≤ s.length := by
  have htiled := Token.tiled_of_scan h
  rw [← String.length_toList]
  generalize s.toList = cs at htiled
  generalize 0 = position at htiled
  generalize ts.items = items, ts.stop = stop at htiled ⊢
  induction htiled with
  | blanks _ => exact Nat.zero_le _
  | token _ hlexeme _ ih =>
      have := hlexeme.length_pos
      simp only [List.length_cons, List.length_append]
      omega

theorem onText_of_error {x : Tokens → InPlace α} {s : String} {e : ParseError}
    (hscan : Token.scan s = .error e) : onText x s = (.error (.fault e), []) := by
  unfold onText
  rw [hscan]

theorem onText_of_ends {x : Tokens → InPlace α} {s : String} {ts : Tokens}
    {r : Except ParseError α} (hscan : Token.scan s = .ok ts) (h : ∃ c', Ends ts (x ts) {} r c') :
    (onText x s).1 = r.mapError Breakdown.fault ∧ ∀ call ∈ (onText x s).2, call.Sound ts := by
  obtain ⟨c', h⟩ := h
  obtain ⟨new, hrun, hnew⟩ := h []
  unfold onText
  rw [hscan]
  dsimp only
  rw [hrun, List.append_nil]
  exact ⟨rfl, hnew⟩

/-- Reading in place is safe and total, and gives what the readers of lists give.  With a clock that
is ahead of the number of characters, the expression of every text and the list of its expressions
are read to a result or a fault, the same as `Expr.parse` and `Expr.parseList` come to: no index is
outside the slots, no level is closed that was not open, and the clock does not run down.  In every
call, of whichever routine and whether it gives a result or a fault, the index does not decrease and
does not pass the end, no more levels are open than the limit, and all levels that the call opened
are closed again, but by the routines that open them for their caller; and every round of a loop
takes a token. -/
theorem parse_in_place (s : String) (clock : Nat) (hclock : s.length < clock) :
    (parse clock s).1 = (Expr.parse s).mapError Breakdown.fault ∧
      (parseList clock s).1 = (Expr.parseList s).mapError Breakdown.fault ∧
      ∀ ts, Token.scan s = .ok ts →
        ∀ call ∈ (parse clock s).2 ++ (parseList clock s).2, call.Sound ts := by
  cases hscan : Token.scan s with
  | error e =>
      have hparse : Expr.parse s = .error e := by rw [Expr.parse, hscan]; rfl
      have hlist : Expr.parseList s = .error e := by rw [Expr.parseList, hscan]; rfl
      rw [parse, parseList, onText_of_error hscan, onText_of_error hscan, hparse, hlist]
      exact ⟨rfl, rfl, fun _ _ call hcall => absurd hcall List.not_mem_nil⟩
  | ok ts =>
      have hstart : Cursor.Valid ts {} := ⟨Nat.zero_le _, Nat.zero_le _⟩
      have hleft : ts.items.length - 0 < clock := (length_items_le hscan).trans_lt hclock
      obtain ⟨hone, hcalls⟩ := onText_of_ends (x := fun ts => single ts clock) hscan
        (ends_single hstart rfl hleft)
      obtain ⟨hmany, hmore⟩ := onText_of_ends (x := fun ts => several ts clock) hscan
        (ends_several hstart rfl hleft)
      have hparse : Expr.parse s = (Expr.parseOne ts.stop ts.items >>= fun o =>
          Expr.parseEnd ts.stop o.2 >>= fun _ => pure o.1) := by
        rw [Expr.parse, hscan]; rfl
      have hlist : Expr.parseList s = if ts.items.isEmpty then .ok []
          else Expr.parseUntilEnd ts.stop (ts.items.length + 1) ts.items := by
        rw [Expr.parseList, hscan]; rfl
      refine ⟨?_, ?_, ?_⟩
      · rw [hparse]
        exact hone
      · rw [hlist]
        exact hmany
      · intro ts' hts call hcall
        cases hts
        rcases List.mem_append.mp hcall with h | h
        · exact hcalls call h
        · exact hmore call h

/-- A text with each kind of bracket, and an operator in front and between. -/
def bracketed : String :=
  "-(a + {1, f(b)}) < 2"

theorem parse_in_place_bracketed :
    (Expr.parse bracketed).isOk = true ∧
      (∃ call ∈ (parse 21 bracketed).2, call.routine = .argumentRound ∧ call.exit.index = 12) ∧
      (parse 21 bracketed).1 = (Expr.parse bracketed).mapError Breakdown.fault ∧
      (parseList 21 bracketed).1 = (Expr.parseList bracketed).mapError Breakdown.fault ∧
      ∀ ts, Token.scan bracketed = .ok ts →
        ∀ call ∈ (parse 21 bracketed).2 ++ (parseList 21 bracketed).2, call.Sound ts :=
  ⟨by decide +kernel, by decide +kernel, parse_in_place bracketed 21 (by decide +kernel)⟩

/-- An operator opens a level, which the chain it is in leaves open. -/
theorem chain_sum_deepens :
    ∃ call ∈ (parse 4 "1+1").2, call.routine = .chain 1 ∧ call.succeeded = true ∧
      call.entry.depth = 0 ∧ call.exit.depth = 1 := by
  decide +kernel

end InPlace

end Preprocessor
