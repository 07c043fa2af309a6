/-
Reading in place beside reading lists of tokens, and the levels of operators.

A reader in place follows a reader of lists if it comes to the same result with the same tokens
left, or to the same fault.  The readers of lists take the room for nesting as an argument; in place
it is what the open levels leave.  A chain of operators opens a level with each of them, and the
reader of the chain's level closes them all, whatever came of the chain.
-/
import Preprocessor.Proofs.CursorCalls

namespace Preprocessor

namespace InPlace

variable {α β : Type} {ts : Tokens} {c c' c₁ : Cursor}

/-! ## Reading in place and reading lists -/

/-- Between two cursors a computation does what a reader of lists comes to: it gives the same result
with the same tokens left, or the same fault.  Levels may stay open. -/
structure Follows (ts : Tokens) (x : InPlace α) (c c' : Cursor)
    (p : Except ParseError (α × List Token)) : Prop where
  ends : Ends ts x c (p.map Prod.fst) c'
  forward : c.index ≤ c'.index
  inside : c'.index ≤ ts.items.length
  kept : c.depth ≤ c'.depth
  limited : c'.depth ≤ Expr.maxNesting
  rest : ∀ a rest, p = .ok (a, rest) → ts.from c' = rest

/-- The same with all levels closed again, and a token taken by what gives a result. -/
structure Reads (ts : Tokens) (x : InPlace α) (c c' : Cursor)
    (p : Except ParseError (α × List Token)) : Prop extends Follows ts x c c' p where
  restored : c'.depth = c.depth
  progress : ∀ a rest, p = .ok (a, rest) → c.index < c'.index

theorem Follows.valid {x : InPlace α} {p : Except ParseError (α × List Token)}
    (h : Follows ts x c c' p) : c'.Valid ts :=
  ⟨h.inside, h.limited⟩

theorem follows_pure (hc : c.Valid ts) (a : α) :
    Follows ts (pure a) c c (.ok (a, ts.from c)) where
  ends := .pure a
  forward := le_rfl
  inside := hc.inside
  kept := le_rfl
  limited := hc.limited
  rest _ _ h := congrArg Prod.snd (Except.ok.inj h)

theorem Follows.of_error {x : InPlace α} {e : ParseError} (hx : Ends ts x c (.error e) c')
    (hforward : c.index ≤ c'.index) (hc' : c'.Valid ts) (hkept : c.depth ≤ c'.depth) :
    Follows ts x c c' (.error e) where
  ends := hx
  forward := hforward
  inside := hc'.inside
  kept := hkept
  limited := hc'.limited
  rest _ _ h := by cases h

theorem Follows.after_look {x : InPlace β} {f : β → InPlace α} {b : β}
    {p : Except ParseError (α × List Token)} (hx : Ends ts x c (.ok b) c)
    (hf : Follows ts (f b) c c' p) : Follows ts (x >>= f) c c' p :=
  { hf with ends := hx.bind_ok hf.ends }

theorem Follows.bind_error {x : InPlace α} {f : α → InPlace β} {e : ParseError}
    (hx : Follows ts x c c' (.error e)) : Follows ts (x >>= f) c c' (.error e) :=
  .of_error (Ends.bind_error hx.ends) hx.forward hx.valid hx.kept

theorem Follows.bind_ok {x : InPlace α} {f : α → InPlace β} {a : α} {rest : List Token}
    {p : Except ParseError (β × List Token)} (hx : Follows ts x c c₁ (.ok (a, rest)))
    (hf : Follows ts (f a) c₁ c' p) : Follows ts (x >>= f) c c' p where
  ends := Ends.bind_ok hx.ends hf.ends
  forward := hx.forward.trans hf.forward
  inside := hf.inside
  kept := hx.kept.trans hf.kept
  limited := hf.limited
  rest := hf.rest

theorem Reads.of_error {x : InPlace α} {e : ParseError} (hx : Ends ts x c (.error e) c')
    (hforward : c.index ≤ c'.index) (hc' : c'.Valid ts) (hdepth : c'.depth = c.depth) :
    Reads ts x c c' (.error e) where
  toFollows := .of_error hx hforward hc' hdepth.ge
  restored := hdepth
  progress _ _ h := by cases h

theorem Reads.called {x : InPlace α} {p : Except ParseError (α × List Token)}
    (h : Reads ts x c c' p) (routine : Routine) : Reads ts (called routine x) c c' p where
  ends := by
    refine h.ends.called ⟨h.forward, h.inside, h.kept, h.limited, fun _ => h.restored, ?_⟩
    intro _ hok
    cases p with
    | error e => cases hok
    | ok o => exact h.progress o.1 o.2 rfl
  forward := h.forward
  inside := h.inside
  kept := h.kept
  limited := h.limited
  rest := h.rest
  restored := h.restored
  progress := h.progress

theorem Reads.after_look {x : InPlace β} {f : β → InPlace α} {b : β}
    {p : Except ParseError (α × List Token)} (hx : Ends ts x c (.ok b) c)
    (hf : Reads ts (f b) c c' p) : Reads ts (x >>= f) c c' p :=
  { hf with toFollows := hf.toFollows.after_look hx }

theorem Reads.after_token {x : InPlace β} {f : β → InPlace α} {b : β}
    {p : Except ParseError (α × List Token)} (hx : Ends ts x c (.ok b) c.next)
    (hf : Follows ts (f b) c.next c' p) (hdepth : c'.depth = c.depth) :
    Reads ts (x >>= f) c c' p where
  ends := hx.bind_ok hf.ends
  forward := (Nat.le_succ _).trans hf.forward
  inside := hf.inside
  kept := hf.kept
  limited := hf.limited
  rest := hf.rest
  restored := hdepth
  progress _ _ _ := hf.forward

/-- One computation after another, and one reader of lists after another.  What the first one leaves
and the second one keeps holds of the cursor in the end. -/
theorem Reads.then_follows {x : InPlace α} {f : α → InPlace β}
    {p : Except ParseError (α × List Token)}
    {q : α × List Token → Except ParseError (β × List Token)} {kept : Cursor → Prop}
    (hx : ∃ c₁, Reads ts x c c₁ p) (hkept : ∀ c₁, c₁.depth = c.depth → kept c₁)
    (hf : ∀ a c₁, c₁.Valid ts → c.index < c₁.index → c₁.depth = c.depth →
      ∃ c₂, Follows ts (f a) c₁ c₂ (q (a, ts.from c₁)) ∧ kept c₂) :
    ∃ c₂, Follows ts (x >>= f) c c₂ (p >>= q) ∧ kept c₂ ∧
      ∀ b rest, p >>= q = .ok (b, rest) → c.index < c₂.index := by
  obtain ⟨c₁, hx⟩ := hx
  cases p with
  | error e => exact ⟨c₁, hx.toFollows.bind_error, hkept c₁ hx.restored, fun _ _ h => by cases h⟩
  | ok o =>
      obtain ⟨a, rest⟩ := o
      have hprogress := hx.progress a rest rfl
      obtain ⟨c₂, hf, hkept₂⟩ := hf a c₁ hx.valid hprogress hx.restored
      rw [hx.rest a rest rfl] at hf
      exact ⟨c₂, hx.toFollows.bind_ok hf, hkept₂, fun _ _ _ => hprogress.trans_le hf.forward⟩

theorem Reads.bind {x : InPlace α} {f : α → InPlace β} {p : Except ParseError (α × List Token)}
    {q : α × List Token → Except ParseError (β × List Token)} (hx : ∃ c₁, Reads ts x c c₁ p)
    (hf : ∀ a c₁, c₁.Valid ts → c.index < c₁.index → c₁.depth = c.depth →
      ∃ c₂, Follows ts (f a) c₁ c₂ (q (a, ts.from c₁)) ∧ c₂.depth = c.depth) :
    ∃ c₂, Reads ts (x >>= f) c c₂ (p >>= q) := by
  obtain ⟨c₂, hfollows, hdepth, hprogress⟩ := Reads.then_follows hx (fun _ => id) hf
  exact ⟨c₂, hfollows, hdepth, hprogress⟩

theorem Reads.map {x : InPlace α} {p : Except ParseError (α × List Token)} (g : α → β)
    (hx : ∃ c', Reads ts x c c' p) :
    ∃ c', Reads ts (do return g (← x)) c c' (p >>= fun o => return (g o.1, o.2)) :=
  Reads.bind hx fun a c₁ hc₁ _ hdepth => ⟨c₁, follows_pure hc₁ (g a), hdepth⟩

/-- A reader in place does what a reader of lists does, from every cursor with fewer than `limit`
tokens behind it; the room is what the open levels leave. -/
def Performs (ts : Tokens) (limit : Nat) (x : InPlace α)
    (q : Nat → Expr.Parser α) : Prop :=
  ∀ c, c.Valid ts → ts.items.length - c.index < limit →
    ∃ c', Reads ts x c c' (q (Expr.maxNesting - c.depth) (ts.from c))

theorem reads_nested {x : InPlace α} {p : Except ParseError (α × List Token)} (hc : c.Valid ts)
    (hroom : c.depth < Expr.maxNesting) (h : ∃ c', Reads ts x c.inner c' p) :
    ∃ c', Reads ts (nested ts x) c c' p := by
  obtain ⟨c', h⟩ := h
  refine ⟨{ c' with depth := c.depth }, ?_⟩
  exact
    { ends := ends_nested hc hroom h.ends h.forward h.inside h.restored
      forward := h.forward
      inside := h.inside
      kept := le_rfl
      limited := hc.limited
      rest := h.rest
      restored := rfl
      progress := h.progress }

theorem reads_nested_of_full {x : InPlace α} (hc : c.Valid ts)
    (hroom : Expr.maxNesting - c.depth = 0) :
    Reads ts (nested ts x) c c
      (Expr.faultAt ts.stop (ts.from c) (.tooDeep Expr.maxNesting)) :=
  .of_error (ends_nested_of_full hc (Nat.sub_eq_zero_iff_le.mp hroom)) le_rfl hc rfl

theorem performs_nested {limit : Nat} {x : InPlace Expr}
    (hx : Performs ts limit x fun room => Expr.parseLevel ts.stop room BinaryOp.levels) :
    Performs ts limit (nested ts x) (Expr.parseNested ts.stop) := by
  intro c hc hlimit
  rw [Expr.parseNested.eq_def]
  cases hroom : Expr.maxNesting - c.depth with
  | zero => exact ⟨c, reads_nested_of_full hc hroom⟩
  | succ room =>
      obtain ⟨hdepth, hinner⟩ := Cursor.room_inner hroom
      have hread := hx c.inner (hc.inner hdepth) hlimit
      rw [hinner] at hread
      exact reads_nested hc hdepth hread

/-! ## Operators -/

variable {n limit : Nat} {left : Expr} {op : BinaryOp} {operand : InPlace Expr}

theorem parseChain_of_none {stop room : Nat} {us : List Token}
    (h : chainOperator? n (ts.front us).1 = none) :
    Expr.parseChain stop room n left us = .ok (left, us) := by
  rw [Expr.parseChain.eq_def]
  cases us with
  | nil => rfl
  | cons t rest =>
      obtain ⟨kind, position⟩ := t
      cases kind with
      | literal v => rfl
      | name s => rfl
      | mark m =>
          dsimp only
          cases hop : m.binaryOp? with
          | none => rfl
          | some op =>
              have hlevel : ¬op.level + n + 1 = BinaryOp.levels := by
                simpa [chainOperator?, Tokens.front, hop] using h
              dsimp only
              rw [if_neg hlevel]

theorem parseChain_of_full {stop position : Nat} {m : Mark} {rest : List Token}
    (hmark : m.binaryOp? = some op) (hlevel : op.level + n + 1 = BinaryOp.levels) :
    Expr.parseChain stop 0 n left (⟨.mark m, position⟩ :: rest) =
      Expr.faultAt stop rest (.tooDeep Expr.maxNesting) := by
  rw [Expr.parseChain.eq_def]
  dsimp only
  rw [hmark]
  exact if_pos hlevel

theorem parseChain_of_room {stop room position : Nat} {m : Mark} {rest : List Token}
    (hmark : m.binaryOp? = some op) (hlevel : op.level + n + 1 = BinaryOp.levels) :
    Expr.parseChain stop (room + 1) n left (⟨.mark m, position⟩ :: rest) =
      Expr.parseLevel stop room n rest >>= fun o =>
        Expr.parseChain stop room n (.binary op left o.1) o.2 := by
  rw [Expr.parseChain.eq_def]
  dsimp only
  rw [hmark]
  exact if_pos hlevel

theorem exists_of_chainOperator? {us : List Token}
    (h : chainOperator? n (ts.front us).1 = some op) :
    ∃ m position rest, us = ⟨.mark m, position⟩ :: rest ∧ m.binaryOp? = some op ∧
      op.level + n + 1 = BinaryOp.levels := by
  cases us with
  | nil => cases h
  | cons t rest =>
      obtain ⟨kind, position⟩ := t
      cases kind with
      | literal v => cases h
      | name s => cases h
      | mark m =>
          obtain ⟨hop, hlevel⟩ := Option.filter_eq_some_iff.mp h
          exact ⟨m, position, rest, rfl, hop, of_decide_eq_true hlevel⟩

/-- A round of a chain: the operator opens a level, in which the operand behind it is read. -/
theorem follows_chainRound {t : Token} {rest : List Token} {room : Nat} (hc : c.Valid ts)
    (hoperand : Performs ts limit operand fun room => Expr.parseLevel ts.stop room n)
    (hlimit : ts.items.length - c.index < limit) (hfrom : ts.from c = t :: rest)
    (hroom : Expr.maxNesting - c.depth = room + 1) :
    ∃ c₁, Follows ts (called (.chainRound n) do
        let _ ← advance ts
        descend ts
        operand) c c₁ (Expr.parseLevel ts.stop room n rest) ∧
      c.index < c₁.index ∧ c₁.depth = c.depth + 1 := by
  obtain ⟨hlt, hrest⟩ := Tokens.from_next hfrom
  obtain ⟨hdepth, hinner⟩ := Cursor.room_inner hroom
  have hnext := hc.next hlt
  obtain ⟨c₁, h⟩ := hoperand c.next.inner (hnext.inner hdepth)
    (Cursor.left_next hlt (Nat.lt_succ_of_lt hlimit))
  have hread : Reads ts operand c.next.inner c₁ (Expr.parseLevel ts.stop room n rest) := by
    rw [← hinner, ← hrest]
    exact h
  have hforward : c.index < c₁.index := hread.forward
  have hopened : c₁.depth = c.depth + 1 := hread.restored
  refine ⟨c₁, ⟨?_, hforward.le, hread.inside, hopened ▸ Nat.le_succ _, hread.limited, hread.rest⟩,
    hforward, hopened⟩
  refine Ends.called ((ends_advance hc hfrom).bind_ok ((ends_descend hnext hdepth).bind_ok
    hread.ends)) ?_
  exact ⟨hforward.le, hread.inside, hopened ▸ Nat.le_succ _, hread.limited,
    fun h => absurd h.symm Bool.false_ne_true, fun _ _ => hforward⟩

theorem ends_chainRound_of_full (n : Nat) (operand : InPlace Expr) {t : Token} {rest : List Token}
    (hc : c.Valid ts) (hfrom : ts.from c = t :: rest) (hroom : Expr.maxNesting - c.depth = 0) :
    Ends ts (called (.chainRound n) do
        let _ ← advance ts
        descend ts
        operand) c (Expr.faultAt ts.stop rest (.tooDeep Expr.maxNesting)) c.next := by
  obtain ⟨hlt, hrest⟩ := Tokens.from_next hfrom
  have hfull := ends_descend_of_full (hc.next hlt) (Nat.sub_eq_zero_iff_le.mp hroom)
  rw [hrest] at hfull
  refine Ends.called ((ends_advance hc hfrom).bind_ok hfull.bind_error) ?_
  exact ⟨Nat.le_succ _, hlt, le_rfl, hc.limited, fun _ => rfl, fun _ _ => Nat.lt_succ_self _⟩

/-- The loop over the operators of a level ends, since each round takes a token. -/
theorem follows_links
    (hoperand : Performs ts limit operand fun room => Expr.parseLevel ts.stop room n)
    {clock : Nat} (hc : c.Valid ts) (hlimit : ts.items.length - c.index < limit)
    (hclock : ts.items.length - c.index < clock) (left : Expr) :
    ∃ c', Follows ts (links ts operand n clock left) c c'
      (Expr.parseChain ts.stop (Expr.maxNesting - c.depth) n left (ts.from c)) := by
  induction clock generalizing c left with
  | zero => exact absurd hclock (Nat.not_lt_zero _)
  | succ clock ih =>
      rw [links]
      cases hop : chainOperator? n (ts.front (ts.from c)).1 with
      | none =>
          rw [parseChain_of_none hop]
          have hpure := follows_pure hc left
          refine ⟨c, { hpure with ends := (ends_peek hc).bind_ok ?_ }⟩
          rw [hop]
          exact hpure.ends
      | some op =>
          obtain ⟨m, position, rest, hfrom, hmark, hlevel⟩ := exists_of_chainOperator? hop
          cases hroom : Expr.maxNesting - c.depth with
          | zero =>
              rw [hfrom, parseChain_of_full hmark hlevel]
              refine ⟨c.next, .of_error ((ends_peek hc).bind_ok ?_) (Nat.le_succ _)
                (hc.next (Tokens.from_next hfrom).1) le_rfl⟩
              rw [hop]
              exact (ends_chainRound_of_full n operand hc hfrom hroom).bind_error
          | succ room =>
              rw [hfrom, parseChain_of_room hmark hlevel]
              obtain ⟨c₁, hround, hforward, hdepth⟩ :=
                follows_chainRound hc hoperand hlimit hfrom hroom
              have hlt := (Tokens.from_next hfrom).1
              have hroom₁ : Expr.maxNesting - c₁.depth = room := by omega
              cases hright : Expr.parseLevel ts.stop room n rest with
              | error e =>
                  rw [hright] at hround
                  refine ⟨c₁, Follows.after_look (ends_peek hc) ?_⟩
                  rw [hop]
                  exact hround.bind_error
              | ok o =>
                  obtain ⟨right, after⟩ := o
                  rw [hright] at hround
                  obtain ⟨c₂, hlinks⟩ := ih hround.valid (by omega) (by omega)
                    (.binary op left right)
                  rw [hroom₁, hround.rest right after rfl] at hlinks
                  refine ⟨c₂, Follows.after_look (ends_peek hc) ?_⟩
                  rw [hop]
                  exact hround.bind_ok hlinks

theorem parseLevel_succ (stop room n : Nat) (us : List Token) :
    Expr.parseLevel stop room (n + 1) us =
      Expr.parseLevel stop room n us >>= fun o => Expr.parseChain stop room n o.1 o.2 := by
  rw [Expr.parseLevel.eq_def]

theorem follows_chain
    (hoperand : Performs ts limit operand fun room => Expr.parseLevel ts.stop room n)
    {clock : Nat} (hclock : limit ≤ clock) (hc : c.Valid ts)
    (hlimit : ts.items.length - c.index < limit) :
    ∃ c', Follows ts (chain ts operand n clock) c c'
        (Expr.parseLevel ts.stop (Expr.maxNesting - c.depth) (n + 1) (ts.from c)) ∧
      ∀ e rest, Expr.parseLevel ts.stop (Expr.maxNesting - c.depth) (n + 1) (ts.from c) =
        .ok (e, rest) → c.index < c'.index := by
  rw [parseLevel_succ]
  have hlinks (left : Expr) (c₁ : Cursor) (hc₁ : c₁.Valid ts) (hforward : c.index < c₁.index)
      (hdepth : c₁.depth = c.depth) : ∃ c₂, Follows ts (links ts operand n clock left) c₁ c₂
        (Expr.parseChain ts.stop (Expr.maxNesting - c.depth) n left (ts.from c₁)) ∧
          c.depth ≤ c₂.depth := by
    obtain ⟨c₂, h⟩ := follows_links hoperand hc₁ (by omega)
      (show ts.items.length - c₁.index < clock by omega) left
    rw [hdepth] at h
    exact ⟨c₂, h, hdepth ▸ h.kept⟩
  obtain ⟨c', h, -, hprogress⟩ := Reads.then_follows
    (q := fun o => Expr.parseChain ts.stop (Expr.maxNesting - c.depth) n o.1 o.2)
    (hoperand c hc hlimit) (fun _ hdepth => hdepth.ge) hlinks
  refine ⟨c', { h with ends := h.ends.called ?_ }, hprogress⟩
  exact ⟨h.forward, h.inside, h.kept, h.limited, fun h => absurd h.symm Bool.false_ne_true,
    fun h => absurd h Bool.false_ne_true⟩

/-- Reading the operators of the innermost levels gives back every level that a chain opened. -/
theorem performs_level (hoperand : Performs ts limit operand (Expr.parseUnary ts.stop))
    {clock : Nat} (hclock : limit ≤ clock) (n : Nat) :
    Performs ts limit (level ts operand clock n) fun room => Expr.parseLevel ts.stop room n := by
  induction n with
  | zero =>
      intro c hc hlimit
      dsimp only
      rw [Expr.parseLevel.eq_def]
      exact hoperand c hc hlimit
  | succ n ih =>
      intro c hc hlimit
      dsimp only
      obtain ⟨c₁, hchain, hprogress⟩ := follows_chain ih hclock hc hlimit
      have hlevel : Reads ts (do
          let base ← here
          let r ← attempt (chain ts (level ts operand clock n) n clock)
          let c ← here
          put { c with depth := base.depth }
          settle r) c { c₁ with depth := c.depth }
          (Expr.parseLevel ts.stop (Expr.maxNesting - c.depth) (n + 1) (ts.from c)) :=
        { ends := Ends.here.bind_ok (hchain.ends.attempt.bind_ok
            (Ends.here.bind_ok (Ends.put.bind_ok (.settle _))))
          forward := hchain.forward
          inside := hchain.inside
          kept := le_rfl
          limited := hc.limited
          rest := hchain.rest
          restored := rfl
          progress := hprogress }
      exact ⟨_, hlevel.called (.level n)⟩

end InPlace

end Preprocessor
