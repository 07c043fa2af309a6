/-
What the readers of expressions accept is derived by the grammar.

A reader that succeeds has read a first part of the tokens, and that part is of the reader's
category with the tree it gives.  The induction is the recursion of the readers: on the room
that is left, and within it from the primary forms outwards.
-/
import Preprocessor.Proofs.ExprGrammar

namespace Preprocessor

/-! ## Strata and levels -/

/-- The number of strata that bind tighter. -/
def Stratum.inner : Stratum → Nat
  | or => 5
  | and => 4
  | equality => 3
  | relation => 2
  | additive => 1
  | multiplicative => 0

/-- The number of strata up to a category. -/
def Category.level : Category → Nat
  | binary s => s.inner + 1
  | _ => 0

@[simp] theorem Stratum.level_operand (s : Stratum) : s.operand.level = s.inner := by
  cases s <;> rfl

theorem Stratum.operand_ne_primary (s : Stratum) : s.operand ≠ .primary := by
  cases s <;> exact Category.noConfusion

theorem Stratum.mem_operators_iff (s : Stratum) (m : Mark) (op : BinaryOp) :
    (m, op) ∈ s.operators ↔
      m.binaryOp? = some op ∧ op.level + s.inner + 1 = BinaryOp.levels := by
  constructor
  · intro h
    cases s <;> simp only [operators, List.mem_cons, List.not_mem_nil, or_false,
      Prod.mk.injEq] at h
    case relation =>
      rcases h with h | h | h | h | h <;> obtain ⟨rfl, rfl⟩ := h <;> exact ⟨rfl, rfl⟩
    case multiplicative =>
      rcases h with h | h | h <;> obtain ⟨rfl, rfl⟩ := h <;> exact ⟨rfl, rfl⟩
    case or | and => obtain ⟨rfl, rfl⟩ := h; exact ⟨rfl, rfl⟩
    case equality | additive =>
      rcases h with h | h <;> obtain ⟨rfl, rfl⟩ := h <;> exact ⟨rfl, rfl⟩
  · rintro ⟨hop, hlevel⟩
    -- an operator tells its level, and only one stratum has that level
    revert hlevel
    cases m <;> cases hop <;> cases s <;> decide

theorem Category.mem_leadingOperators_iff (m : Mark) (op : UnaryOp) :
    (m, op) ∈ leadingOperators ↔ m.unaryOp? = some op := by
  cases m <;> cases op <;> simp [leadingOperators, Mark.unaryOp?]

/-! ## Readers -/

def Token.kinds (ts : List Token) : List TokenKind :=
  ts.map Token.kind

@[simp] theorem Token.kinds_nil : Token.kinds [] = [] := rfl

@[simp] theorem Token.kinds_cons (t : Token) (ts : List Token) :
    Token.kinds (t :: ts) = t.kind :: Token.kinds ts := rfl

@[simp] theorem Token.kinds_append (ts us : List Token) :
    Token.kinds (ts ++ us) = Token.kinds ts ++ Token.kinds us := by
  simp [Token.kinds]

/-- Whatever a reader accepts is a first part of the tokens, of a category and with its tree. -/
def Sound (c : Category) (d : Nat) (read : Expr.Parser Expr) : Prop :=
  ∀ ⦃ts : List Token⦄ ⦃e : Expr⦄ ⦃rest : List Token⦄, read ts = .ok (e, rest) →
    ∃ pre, ts = pre ++ rest ∧ Derives c d (Token.kinds pre) e

namespace Expr

theorem exists_of_parseClose {stop : Nat} {close : Mark} {ts rest : List Token}
    (h : parseClose stop close ts = .ok rest) :
    ∃ position, ts = ⟨.mark close, position⟩ :: rest := by
  unfold parseClose at h
  split at h
  · split at h
    · rename_i m position rest' hm
      cases h
      subst hm
      exact ⟨position, rfl⟩
    · cases h
  · cases h

theorem exists_of_parseItems {stop : Nat} {close : Mark} {d : Nat} {item : Parser Expr}
    (hitem : Sound .expression d item) {limit : Nat} {ts : List Token} {es : List Expr}
    {rest : List Token} (h : parseItems stop close item limit ts = .ok (es, rest)) :
    ∃ (items : List Item) (pre : List Token),
      ts = pre ++ rest ∧ Token.kinds pre = Item.listed items ++ [.mark close] ∧
        es = items.map Item.tree ∧ items ≠ [] ∧
        ∀ x ∈ items, Derives .expression d x.tokens x.tree := by
  induction limit generalizing ts es with
  | zero => cases h
  | succ limit ih =>
      unfold parseItems at h
      obtain ⟨⟨e, after⟩, he, hk⟩ := exists_of_bind_eq_ok h
      obtain ⟨pre, rfl, hpre⟩ := hitem he
      let x : Item := ⟨Token.kinds pre, e⟩
      dsimp only at hk
      split at hk
      · rename_i position more
        obtain ⟨⟨es', after'⟩, hes, hend⟩ := exists_of_bind_eq_ok hk
        cases hend
        obtain ⟨items, pre', rfl, hkinds, rfl, hne, hall⟩ := ih hes
        refine ⟨x :: items, pre ++ ⟨.mark .comma, position⟩ :: pre', by simp, ?_, rfl,
          List.cons_ne_nil _ _, ?_⟩
        · simp [x, Item.listed, List.intercalate_cons_of_ne_nil, hne, hkinds]
        · exact List.forall_mem_cons.mpr ⟨hpre, hall⟩
      · obtain ⟨after', hclose, hend⟩ := exists_of_bind_eq_ok hk
        cases hend
        obtain ⟨position, rfl⟩ := exists_of_parseClose hclose
        refine ⟨[x], pre ++ [⟨.mark close, position⟩], by simp, ?_, rfl,
          List.cons_ne_nil _ _, ?_⟩
        · simp [x, Item.listed]
        · exact List.forall_mem_singleton.mpr hpre

theorem exists_of_parseBracket {stop : Nat} {close : Mark} {d : Nat} {item : Parser Expr}
    (hitem : Sound .expression d item) {ts : List Token} {es : List Expr} {rest : List Token}
    (h : parseBracket stop close item ts = .ok (es, rest)) :
    ∃ (items : List Item) (pre : List Token),
      ts = pre ++ rest ∧ Token.kinds pre = Item.listed items ++ [.mark close] ∧
        es = items.map Item.tree ∧
        ∀ x ∈ items, Derives .expression d x.tokens x.tree := by
  unfold parseBracket at h
  split at h
  · rename_i rest' hclose
    cases h
    obtain ⟨position, rfl⟩ := exists_of_parseClose hclose
    exact ⟨[], [⟨.mark close, position⟩], rfl, rfl, rfl, List.forall_mem_nil _⟩
  · obtain ⟨items, pre, hts, hkinds, hes, -, hall⟩ := exists_of_parseItems hitem h
    exact ⟨items, pre, hts, hkinds, hes, hall⟩

/-! ## The recursion of the readers -/

/-- Links that are read: operators of a stratum, each operand one deeper than the one before. -/
structure Linked (s : Stratum) (d : Nat) (links : List Link) : Prop where
  marks : ∀ l ∈ links, (l.mark, l.op) ∈ s.operators
  operands : ∀ (i : Nat) (h : i < links.length),
    Derives s.operand (d + (i + 1)) links[i].tokens links[i].tree

theorem Linked.nil (s : Stratum) (d : Nat) : Linked s d [] :=
  ⟨List.forall_mem_nil _, fun _ h => absurd h (Nat.not_lt_zero _)⟩

theorem Linked.cons {s : Stratum} {d : Nat} {l : Link} {links : List Link}
    (hmark : (l.mark, l.op) ∈ s.operators) (hl : Derives s.operand (d + 1) l.tokens l.tree)
    (h : Linked s (d + 1) links) : Linked s d (l :: links) := by
  refine ⟨List.forall_mem_cons.mpr ⟨hmark, h.marks⟩, fun i hi => ?_⟩
  cases i with
  | zero => exact hl
  | succ i =>
      have hop := h.operands i (Nat.lt_of_succ_lt_succ hi)
      rw [show d + 1 + (i + 1) = d + (i + 1 + 1) by omega] at hop
      exact hop

theorem parseLevel_zero (stop room : Nat) (ts : List Token) :
    parseLevel stop room 0 ts = parseUnary stop room ts := by
  rw [parseLevel.eq_def]

/-- What holds of the readers with a given room, at the nesting count that leaves it. -/
structure SoundAt (stop room d : Nat) : Prop where
  level : ∀ c, c ≠ .primary → Sound c d (parseLevel stop room c.level)
  chain : ∀ (s : Stratum) {left : Expr} {ts : List Token} {e : Expr} {rest : List Token},
    parseChain stop room s.inner left ts = .ok (e, rest) →
      ∃ (links : List Link) (pre : List Token),
        ts = pre ++ rest ∧ Token.kinds pre = links.flatMap Link.text ∧
          e = links.foldl Link.attach left ∧ Linked s d links

section Step

variable {stop room d : Nat} (hd : d ≤ maxNesting)
  (below : ∀ r, room = r + 1 → SoundAt stop r (d + 1))

include below

theorem sound_nested : Sound .expression (d + 1) (parseNested stop room) := by
  intro ts e rest h
  rw [parseNested.eq_def] at h
  split at h
  · cases h
  · rename_i r
    exact (below r rfl).level .expression Category.noConfusion h

theorem sound_chain (s : Stratum) {left : Expr} {ts : List Token} {e : Expr}
    {rest : List Token} (h : parseChain stop room s.inner left ts = .ok (e, rest)) :
    ∃ (links : List Link) (pre : List Token),
      ts = pre ++ rest ∧ Token.kinds pre = links.flatMap Link.text ∧
        e = links.foldl Link.attach left ∧ Linked s d links := by
  -- where no operator of the stratum follows, the chain has no further link
  have hnone : (left, ts) = (e, rest) → ∃ (links : List Link) (pre : List Token),
      ts = pre ++ rest ∧ Token.kinds pre = links.flatMap Link.text ∧
        e = links.foldl Link.attach left ∧ Linked s d links := by
    intro h
    cases h
    exact ⟨[], [], rfl, rfl, rfl, .nil s d⟩
  rw [parseChain.eq_def] at h
  split at h
  · rename_i m position rest'
    split at h
    · exact hnone (Except.ok.inj h)
    · rename_i op hop
      split at h
      · rename_i hlevel
        split at h
        · cases h
        · rename_i r
          obtain ⟨⟨right, after⟩, hright, hk⟩ := exists_of_bind_eq_ok h
          have hmark := (s.mem_operators_iff m op).mpr ⟨hop, hlevel⟩
          rw [← s.level_operand] at hright
          obtain ⟨pre, rfl, hpre⟩ :=
            (below r rfl).level s.operand s.operand_ne_primary hright
          obtain ⟨links, pre', rfl, hkinds, rfl, hlinks⟩ := (below r rfl).chain s hk
          refine ⟨⟨m, op, Token.kinds pre, right⟩ :: links,
            ⟨.mark m, position⟩ :: (pre ++ pre'), by simp, ?_, rfl, .cons hmark hpre hlinks⟩
          simp [Link.text, hkinds]
      · exact hnone (Except.ok.inj h)
  · exact hnone (Except.ok.inj h)

include hd

theorem sound_primary : Sound .primary d (parsePrimary stop room) := by
  intro ts e rest h
  rw [parsePrimary.eq_def] at h
  split at h
  · cases h
  · rename_i v position rest
    cases h
    exact ⟨[⟨.literal v, position⟩], rfl, .literal hd⟩
  · rename_i s position position' rest
    obtain ⟨⟨args, after⟩, hargs, hk⟩ := exists_of_bind_eq_ok h
    cases hk
    obtain ⟨items, pre, rfl, hkinds, rfl, hall⟩ :=
      exists_of_parseBracket (sound_nested below) hargs
    refine ⟨⟨.name s, position⟩ :: ⟨.mark .openParen, position'⟩ :: pre, rfl, ?_⟩
    rw [Token.kinds_cons, Token.kinds_cons, hkinds]
    exact .call hd hall
  · rename_i s position rest hopen
    cases h
    exact ⟨[⟨.name s, position⟩], rfl, .name hd⟩
  · rename_i position rest
    obtain ⟨⟨inner, after⟩, hinner, hk⟩ := exists_of_bind_eq_ok h
    obtain ⟨after', hclose, hend⟩ := exists_of_bind_eq_ok hk
    cases hend
    obtain ⟨pre, rfl, hpre⟩ := sound_nested below hinner
    obtain ⟨position', rfl⟩ := exists_of_parseClose hclose
    refine ⟨⟨.mark .openParen, position⟩ :: (pre ++ [⟨.mark .closeParen, position'⟩]),
      by simp, ?_⟩
    rw [Token.kinds_cons, Token.kinds_append]
    exact .parenthesis hd hpre
  · rename_i position rest
    obtain ⟨⟨items, after⟩, hitems, hk⟩ := exists_of_bind_eq_ok h
    cases hk
    obtain ⟨items, pre, rfl, hkinds, rfl, hall⟩ :=
      exists_of_parseBracket (sound_nested below) hitems
    refine ⟨⟨.mark .openBrace, position⟩ :: pre, rfl, ?_⟩
    rw [Token.kinds_cons, hkinds]
    exact .set hd hall
  · cases h

theorem sound_unary : Sound .unary d (parseUnary stop room) := by
  have hprimary : Sound .unary d (parsePrimary stop room) := by
    intro ts e rest h
    obtain ⟨pre, hts, hpre⟩ := sound_primary hd below h
    exact ⟨pre, hts, .operand hd hpre⟩
  intro ts e rest h
  rw [parseUnary.eq_def] at h
  split at h
  · rename_i m position rest'
    split at h
    · exact hprimary h
    · rename_i op hop
      split at h
      · cases h
      · rename_i r
        obtain ⟨⟨operand, after⟩, hoperand, hk⟩ := exists_of_bind_eq_ok h
        cases hk
        rw [← parseLevel_zero] at hoperand
        obtain ⟨pre, rfl, hpre⟩ := (below r rfl).level .unary Category.noConfusion hoperand
        have hmark := (Category.mem_leadingOperators_iff m op).mpr hop
        exact ⟨⟨.mark m, position⟩ :: pre, rfl, .leading hd hmark hpre⟩
  · exact hprimary h

theorem sound_level (c : Category) (hc : c ≠ .primary) :
    Sound c d (parseLevel stop room c.level) := by
  -- by the number of strata up to the category
  induction hn : c.level generalizing c with
  | zero =>
      cases c with
      | primary => exact absurd rfl hc
      | binary s => cases hn
      | unary =>
          intro ts e rest h
          rw [parseLevel_zero] at h
          exact sound_unary hd below h
  | succ n ih =>
      cases c with
      | primary => exact absurd rfl hc
      | unary => cases hn
      | binary s =>
          cases hn
          intro ts e rest h
          rw [parseLevel.eq_def] at h
          obtain ⟨⟨left, after⟩, hleft, hk⟩ := exists_of_bind_eq_ok h
          obtain ⟨pre, rfl, hpre⟩ := ih s.operand s.operand_ne_primary s.level_operand hleft
          obtain ⟨links, pre', rfl, hkinds, rfl, hlinks⟩ := sound_chain below s hk
          refine ⟨pre ++ pre', by simp, ?_⟩
          rw [Token.kinds_append, hkinds]
          exact .chain hd hpre hlinks.marks hlinks.operands

end Step

/-- Readers with any room are sound, by induction on the room. -/
theorem soundAt (stop : Nat) {room d : Nat} (hd : d + room = maxNesting) :
    SoundAt stop room d := by
  induction room generalizing d with
  | zero =>
      have below : ∀ r, 0 = r + 1 → SoundAt stop r (d + 1) := fun r h => absurd h (by omega)
      exact ⟨sound_level (by omega) below, fun s => sound_chain below s⟩
  | succ room ih =>
      have below : ∀ r, room + 1 = r + 1 → SoundAt stop r (d + 1) := by
        intro r h
        cases h
        exact ih (by omega)
      exact ⟨sound_level (by omega) below, fun s => sound_chain below s⟩

end Expr

end Preprocessor
