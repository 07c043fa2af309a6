/-
What the grammar derives, the readers of expressions accept.

A reader reads exactly the derived tokens if what follows them cannot go on with them: no
operator of the strata that the reader covers, and no parenthesis, which would turn a name
into a call.  The induction is on the derivation.  With soundness, the parser accepts exactly
its grammar, and a text has at most one tree.
-/
import Preprocessor.Proofs.ExprSoundness

namespace Preprocessor

/-! ## Derivations -/

/-- The count of a derivation never passes the limit. -/
theorem Derives.le_maxNesting {c : Category} {d : Nat} {ts : List TokenKind} {e : Expr}
    (h : Derives c d ts e) : d ≤ Expr.maxNesting := by
  cases h <;> assumption

/-- Derived tokens start with one that closes nothing. -/
theorem Derives.starts {c : Category} {d : Nat} {ts : List TokenKind} {e : Expr}
    (h : Derives c d ts e) :
    ∃ k ks, ts = k :: ks ∧ k ≠ .mark .closeParen ∧ k ≠ .mark .closeBrace := by
  induction h with
  | chain _ _ _ _ ih _ =>
      obtain ⟨k, ks, rfl, hk⟩ := ih
      exact ⟨k, _, rfl, hk⟩
  | @leading m op d ts e _ hmark _ _ =>
      refine ⟨.mark m, ts, rfl, ?_⟩
      rw [Category.mem_leadingOperators_iff] at hmark
      constructor
      · rintro ⟨⟩
        cases hmark
      · rintro ⟨⟩
        cases hmark
  | operand _ _ ih => exact ih
  | literal => exact ⟨_, _, rfl, TokenKind.noConfusion, TokenKind.noConfusion⟩
  | name => exact ⟨_, _, rfl, TokenKind.noConfusion, TokenKind.noConfusion⟩
  | parenthesis => exact ⟨_, _, rfl, by decide, by decide⟩
  | call => exact ⟨_, _, rfl, TokenKind.noConfusion, TokenKind.noConfusion⟩
  | set => exact ⟨_, _, rfl, by decide, by decide⟩

/-! ## Tokens by their kinds -/

theorem Token.exists_of_kinds_eq_cons {ts : List Token} {k : TokenKind} {ks : List TokenKind}
    (h : Token.kinds ts = k :: ks) :
    ∃ position us, ts = ⟨k, position⟩ :: us ∧ Token.kinds us = ks := by
  obtain ⟨t, us, rfl, rfl, hus⟩ := List.map_eq_cons_iff.mp h
  exact ⟨t.position, us, rfl, hus⟩

theorem Token.exists_of_kinds_eq_append {ts : List Token} {ks ls : List TokenKind}
    (h : Token.kinds ts = ks ++ ls) :
    ∃ us vs, ts = us ++ vs ∧ Token.kinds us = ks ∧ Token.kinds vs = ls :=
  List.map_eq_append_iff.mp h

/-- Tokens with which nothing of the `n` tightest strata goes on. -/
def Stops (n : Nat) (rest : List Token) : Prop :=
  ∀ t ∈ rest.head?, t.kind ≠ .mark .openParen ∧
    ∀ m op, t.kind = .mark m → m.binaryOp? = some op → op.level + n < BinaryOp.levels

namespace Stops

variable {n : Nat} {rest : List Token}

theorem nil : Stops n [] := fun _ h => by cases h

theorem mono {k : Nat} (h : Stops n rest) (hk : k ≤ n) : Stops k rest := by
  intro t ht
  refine ⟨(h t ht).1, fun m op hm hop => ?_⟩
  have := (h t ht).2 m op hm hop
  omega

theorem cons {m : Mark} {position : Nat} (hm : m.binaryOp? = none) (hopen : m ≠ .openParen) :
    Stops n (⟨.mark m, position⟩ :: rest) := by
  intro t ht
  cases ht
  refine ⟨fun h => hopen (TokenKind.mark.inj h), fun m' op hm' hop => ?_⟩
  cases hm'
  rw [hm] at hop
  cases hop

theorem operator {s : Stratum} {m : Mark} {op : BinaryOp} {position : Nat}
    (hm : (m, op) ∈ s.operators) : Stops s.inner (⟨.mark m, position⟩ :: rest) := by
  obtain ⟨hop, hlevel⟩ := (s.mem_operators_iff m op).mp hm
  intro t ht
  cases ht
  refine ⟨?_, fun m' op' hm' hop' => ?_⟩
  · rintro ⟨⟩
    cases hop
  · cases hm'
    rw [hop] at hop'
    cases hop'
    omega

end Stops

namespace Expr

variable {stop room d : Nat}

/-! ## Chains -/

theorem parseChain_of_stops {n : Nat} {left : Expr} {rest : List Token}
    (h : Stops (n + 1) rest) : parseChain stop room n left rest = .ok (left, rest) := by
  rw [parseChain.eq_def]
  split
  · rename_i m position rest'
    split
    · rfl
    · rename_i op hop
      have hlevel := (h ⟨.mark m, position⟩ rfl).2 m op rfl hop
      rw [if_neg (by omega)]
  · rfl

theorem parseChain_cons {s : Stratum} {m : Mark} {op : BinaryOp} {position : Nat}
    {left right : Expr} {ts after : List Token} (hm : (m, op) ∈ s.operators)
    (h : parseLevel stop room s.inner ts = .ok (right, after)) :
    parseChain stop (room + 1) s.inner left (⟨.mark m, position⟩ :: ts) =
      parseChain stop room s.inner (.binary op left right) after := by
  obtain ⟨hop, hlevel⟩ := (s.mem_operators_iff m op).mp hm
  rw [parseChain.eq_def]
  simp only [hop, hlevel, if_true, h]
  rfl

theorem stops_of_links {s : Stratum} {links : List Link} {ts rest : List Token}
    (hmarks : ∀ l ∈ links, (l.mark, l.op) ∈ s.operators)
    (hts : Token.kinds ts = links.flatMap Link.text) (hrest : Stops (s.inner + 1) rest) :
    Stops s.inner (ts ++ rest) := by
  cases links with
  | nil =>
      obtain rfl : ts = [] := List.map_eq_nil_iff.mp hts
      exact hrest.mono (Nat.le_succ _)
  | cons l links =>
      rw [List.flatMap_cons, Link.text, List.cons_append] at hts
      obtain ⟨position, us, rfl, -⟩ := Token.exists_of_kinds_eq_cons hts
      exact .operator (hmarks l List.mem_cons_self)

/-- What it takes of a reader to be complete for tokens with a tree. -/
def Complete (n : Nat) (read : Parser Expr) (ts : List TokenKind) (e : Expr) : Prop :=
  ∀ ⦃us rest : List Token⦄, Token.kinds us = ts → Stops n rest →
    read (us ++ rest) = .ok (e, rest)

theorem complete_chain {s : Stratum} {links : List Link} {left : Expr} {ts rest : List Token}
    (hd : d + room = maxNesting) (hmarks : ∀ l ∈ links, (l.mark, l.op) ∈ s.operators)
    (hlinks : ∀ (i : Nat) (h : i < links.length), d + (i + 1) ≤ maxNesting ∧
      ∀ r, d + (i + 1) + r = maxNesting →
        Complete s.inner (parseLevel stop r s.inner) links[i].tokens links[i].tree)
    (hts : Token.kinds ts = links.flatMap Link.text) (hrest : Stops (s.inner + 1) rest) :
    parseChain stop room s.inner left (ts ++ rest) =
      .ok (links.foldl Link.attach left, rest) := by
  induction links generalizing d room left ts with
  | nil =>
      obtain rfl : ts = [] := List.map_eq_nil_iff.mp hts
      exact parseChain_of_stops hrest
  | cons l links ih =>
      rw [List.flatMap_cons, Link.text, List.cons_append] at hts
      obtain ⟨position, us, rfl, hus⟩ := Token.exists_of_kinds_eq_cons hts
      obtain ⟨us, vs, rfl, hus, hvs⟩ := Token.exists_of_kinds_eq_append hus
      obtain ⟨hle, hl⟩ := hlinks 0 (Nat.zero_lt_succ _)
      obtain ⟨r, rfl⟩ : ∃ r, room = r + 1 := ⟨room - 1, by omega⟩
      have hmarks' : ∀ l ∈ links, (l.mark, l.op) ∈ s.operators :=
        fun l hl => hmarks l (List.mem_cons_of_mem _ hl)
      have hright : parseLevel stop r s.inner (us ++ (vs ++ rest)) = .ok (l.tree, vs ++ rest) :=
        hl r (by omega) hus (stops_of_links hmarks' hvs hrest)
      rw [List.cons_append, List.append_assoc,
        parseChain_cons (hmarks l List.mem_cons_self) hright]
      refine ih (d := d + 1) (by omega) hmarks' (fun i hi => ?_) hvs
      -- the operand after the next operator stands one deeper than counted from there
      have hnext := hlinks (i + 1) (Nat.succ_lt_succ hi)
      rw [show d + (i + 1 + 1) = d + 1 + (i + 1) by omega] at hnext
      exact hnext

/-! ## Lists -/

def Closes (close : Mark) : Prop :=
  close = .closeParen ∨ close = .closeBrace

theorem Closes.stops {close : Mark} (h : Closes close) {n position : Nat} {rest : List Token} :
    Stops n (⟨.mark close, position⟩ :: rest) := by
  rcases h with rfl | rfl
  · exact .cons rfl Mark.noConfusion
  · exact .cons rfl Mark.noConfusion

theorem parseClose_cons {close : Mark} {position : Nat} {rest : List Token} :
    parseClose stop close (⟨.mark close, position⟩ :: rest) = .ok rest :=
  if_pos rfl

theorem complete_items {close : Mark} (hclose : Closes close) {item : Parser Expr}
    {items : List Item} (hitem : ∀ x ∈ items, Complete BinaryOp.levels item x.tokens x.tree)
    (hne : items ≠ []) {limit : Nat} (hlimit : items.length ≤ limit) {ts rest : List Token}
    (hts : Token.kinds ts = Item.listed items ++ [.mark close]) :
    parseItems stop close item limit (ts ++ rest) = .ok (items.map Item.tree, rest) := by
  induction items generalizing limit ts with
  | nil => exact absurd rfl hne
  | cons x items ih =>
      obtain ⟨limit, rfl⟩ : ∃ k, limit = k + 1 := ⟨limit - 1, by simp at hlimit; omega⟩
      have hx := hitem x List.mem_cons_self
      rw [parseItems]
      cases items with
      | nil =>
          -- the last item is followed by the closing mark, the others by a comma
          rw [Item.listed, List.map_singleton, List.intercalate_singleton] at hts
          obtain ⟨us, vs, rfl, hus, hvs⟩ := Token.exists_of_kinds_eq_append hts
          obtain ⟨position, vs, rfl, hnil⟩ := Token.exists_of_kinds_eq_cons hvs
          obtain rfl : vs = [] := List.map_eq_nil_iff.mp hnil
          rw [List.append_assoc, List.singleton_append, hx hus hclose.stops]
          rcases hclose with rfl | rfl <;> rfl
      | cons y items =>
          rw [Item.listed, List.map_cons, List.map_cons, List.intercalate_cons_cons,
            List.append_assoc, List.append_assoc] at hts
          obtain ⟨us, vs, rfl, hus, hvs⟩ := Token.exists_of_kinds_eq_append hts
          obtain ⟨position, vs, rfl, hmore⟩ := Token.exists_of_kinds_eq_cons hvs
          have hmore := ih (fun z hz => hitem z (List.mem_cons_of_mem _ hz))
            (List.cons_ne_nil _ _) (Nat.le_of_succ_le_succ hlimit) hmore
          rw [List.append_assoc, List.cons_append, hx hus (.cons rfl Mark.noConfusion)]
          change (parseItems stop close item limit (vs ++ rest) >>= fun r =>
            pure (x.tree :: r.1, r.2)) = _
          rw [hmore]
          rfl

theorem length_le_listed {items : List Item} (h : ∀ x ∈ items, x.tokens ≠ []) :
    items.length ≤ (Item.listed items).length := by
  induction items with
  | nil => exact Nat.le_refl _
  | cons x items ih =>
      have hx : 0 < x.tokens.length := List.length_pos_iff.mpr (h x List.mem_cons_self)
      have hitems := ih fun y hy => h y (List.mem_cons_of_mem _ hy)
      cases items with
      | nil => simpa [Item.listed, Nat.one_le_iff_ne_zero, Nat.pos_iff_ne_zero] using hx
      | cons y items =>
          simp only [Item.listed, List.map_cons, List.intercalate_cons_cons, List.length_append,
            List.length_cons, List.length_nil] at hitems ⊢
          omega

theorem exists_listed_cons (x : Item) (items : List Item) :
    ∃ more, Item.listed (x :: items) = x.tokens ++ more := by
  cases items with
  | nil => exact ⟨[], by simp [Item.listed]⟩
  | cons y items => exact ⟨_, by rw [Item.listed, List.map_cons, List.map_cons,
      List.intercalate_cons_cons, List.append_assoc]⟩

theorem parseClose_of_ne {close : Mark} {k : TokenKind} (hk : k ≠ .mark close)
    {position : Nat} {rest : List Token} :
    ∃ fault, parseClose stop close (⟨k, position⟩ :: rest) = .error fault := by
  cases k with
  | literal v => exact ⟨_, rfl⟩
  | name s => exact ⟨_, rfl⟩
  | mark m => exact ⟨_, if_neg fun h => hk (congrArg _ h)⟩

theorem complete_bracket {close : Mark} (hclose : Closes close) {item : Parser Expr}
    {items : List Item} (hitem : ∀ x ∈ items, Complete BinaryOp.levels item x.tokens x.tree)
    (hderived : ∀ x ∈ items, Derives .expression d x.tokens x.tree) {ts rest : List Token}
    (hts : Token.kinds ts = Item.listed items ++ [.mark close]) :
    parseBracket stop close item (ts ++ rest) = .ok (items.map Item.tree, rest) := by
  unfold parseBracket
  cases items with
  | nil =>
      obtain ⟨position, us, rfl, hnil⟩ := Token.exists_of_kinds_eq_cons hts
      obtain rfl : us = [] := List.map_eq_nil_iff.mp hnil
      rw [List.singleton_append, parseClose_cons]
      rfl
  | cons x items =>
      -- the first item does not start with the mark that would close the bracket
      obtain ⟨k, ks, hk, hparen, hbrace⟩ := (hderived x List.mem_cons_self).starts
      obtain ⟨more, hmore⟩ := exists_listed_cons x items
      have hfirst : Token.kinds ts = k :: (ks ++ more ++ [.mark close]) := by
        rw [hts, hmore, hk]
        rfl
      have hne : k ≠ .mark close := by
        rcases hclose with rfl | rfl
        · exact hparen
        · exact hbrace
      have hlength : (x :: items).length ≤ (ts ++ rest).length + 1 := by
        have hitems := length_le_listed fun y hy hnil => by
          obtain ⟨k, ks, hy, -⟩ := (hderived y hy).starts
          rw [hy] at hnil
          cases hnil
        have hts' := congrArg List.length hts
        simp only [Token.kinds, List.length_map, List.length_append] at hts' ⊢
        omega
      have hread : parseItems stop close item ((ts ++ rest).length + 1) (ts ++ rest) =
          .ok ((x :: items).map Item.tree, rest) :=
        complete_items hclose hitem (List.cons_ne_nil _ _) hlength hts
      obtain ⟨position, us, rfl, -⟩ := Token.exists_of_kinds_eq_cons hfirst
      obtain ⟨fault, hfault⟩ : ∃ fault, parseClose stop close
          (⟨k, position⟩ :: (us ++ rest)) = .error fault := parseClose_of_ne hne
      rw [List.cons_append] at hread ⊢
      rw [hfault]
      exact hread

/-! ## The induction on derivations -/

def reader (stop room : Nat) : Category → Parser Expr
  | .binary s => parseLevel stop room (s.inner + 1)
  | .unary => parseUnary stop room
  | .primary => parsePrimary stop room

theorem reader_operand (s : Stratum) (stop room : Nat) :
    reader stop room s.operand = parseLevel stop room s.inner := by
  cases s with
  | multiplicative =>
      funext ts
      exact (parseLevel_zero stop room ts).symm
  | _ => rfl

theorem parseUnary_of_primary {ts : List TokenKind} {e : Expr} (h : Derives .primary d ts e)
    {us rest : List Token} (hus : Token.kinds us = ts) :
    parseUnary stop room (us ++ rest) = parsePrimary stop room (us ++ rest) := by
  cases h with
  | literal | name | parenthesis | call | set =>
      obtain ⟨position, vs, rfl, -⟩ := Token.exists_of_kinds_eq_cons hus
      rw [parseUnary.eq_def]
      rfl

theorem exists_room {c : Category} {ts : List TokenKind} {e : Expr}
    (h : Derives c (d + 1) ts e) (hroom : d + room = maxNesting) :
    ∃ r, room = r + 1 ∧ d + 1 + r = maxNesting := by
  have hle := h.le_maxNesting
  exact ⟨room - 1, by omega, by omega⟩

theorem complete_nested {ts : List TokenKind} {e : Expr}
    (h : Derives .expression (d + 1) ts e) (hroom : d + room = maxNesting)
    (ih : ∀ r, d + 1 + r = maxNesting →
      Complete BinaryOp.levels (reader stop r .expression) ts e) :
    Complete BinaryOp.levels (parseNested stop room) ts e := by
  obtain ⟨r, rfl, hr⟩ := exists_room h hroom
  intro us rest hus hrest
  rw [parseNested.eq_def]
  exact ih r hr hus hrest

theorem complete_reader {c : Category} {ts : List TokenKind} {e : Expr}
    (h : Derives c d ts e) :
    ∀ room, d + room = maxNesting → Complete c.level (reader stop room c) ts e := by
  induction h with
  | @chain s d first e links hd hfirst hmarks hlinks ihfirst ihlinks =>
      intro room hroom us rest hts hrest
      -- the operator after the first operand, if there is one, stops the tighter reader
      obtain ⟨us, vs, rfl, hus, hvs⟩ := Token.exists_of_kinds_eq_append hts
      have hleft : parseLevel stop room s.inner (us ++ (vs ++ rest)) = .ok (e, vs ++ rest) := by
        have := ihfirst room hroom
        rw [reader_operand, Stratum.level_operand] at this
        exact this hus (stops_of_links hmarks hvs hrest)
      have hchain : parseChain stop room s.inner e (vs ++ rest) =
          .ok (links.foldl Link.attach e, rest) := by
        refine complete_chain hroom hmarks (fun i hi => ?_) hvs hrest
        refine ⟨(hlinks i hi).le_maxNesting, fun r hr => ?_⟩
        have := ihlinks i hi r hr
        rw [reader_operand, Stratum.level_operand] at this
        exact this
      rw [reader, parseLevel.eq_def, List.append_assoc]
      simp only [hleft]
      exact hchain
  | @leading m op d ts e hd hmark hoperand ih =>
      intro room hroom us rest hts hrest
      obtain ⟨position, us, rfl, hus⟩ := Token.exists_of_kinds_eq_cons hts
      obtain ⟨r, rfl, hr⟩ := exists_room hoperand hroom
      have hread : parseUnary stop r (us ++ rest) = .ok (e, rest) := ih r hr hus hrest
      rw [Category.mem_leadingOperators_iff] at hmark
      rw [reader, List.cons_append, parseUnary.eq_def]
      simp only [hmark, hread]
      rfl
  | operand hd hprimary ih =>
      intro room hroom us rest hts hrest
      rw [reader, parseUnary_of_primary hprimary hts]
      exact ih room hroom hts hrest
  | literal hd =>
      intro room hroom us rest hts hrest
      obtain ⟨position, us, rfl, hnil⟩ := Token.exists_of_kinds_eq_cons hts
      obtain rfl : us = [] := List.map_eq_nil_iff.mp hnil
      rw [reader, parsePrimary.eq_def]
      rfl
  | @name d s hd =>
      intro room hroom us rest hts hrest
      obtain ⟨position, us, rfl, hnil⟩ := Token.exists_of_kinds_eq_cons hts
      obtain rfl : us = [] := List.map_eq_nil_iff.mp hnil
      rw [reader, parsePrimary.eq_def]
      -- no parenthesis follows that would make it a call
      cases rest with
      | nil => rfl
      | cons t rest =>
          obtain ⟨k, position'⟩ := t
          have hopen : k ≠ .mark .openParen := (hrest _ rfl).1
          cases k with
          | literal v => rfl
          | name s => rfl
          | mark m =>
              cases m with
              | openParen => exact absurd rfl hopen
              | _ => rfl
  | @parenthesis d ts e hd hinner ih =>
      intro room hroom us rest hts hrest
      obtain ⟨position, us, rfl, hus⟩ := Token.exists_of_kinds_eq_cons hts
      obtain ⟨us, vs, rfl, hin, hvs⟩ := Token.exists_of_kinds_eq_append hus
      obtain ⟨position', vs, rfl, hnil⟩ := Token.exists_of_kinds_eq_cons hvs
      obtain rfl : vs = [] := List.map_eq_nil_iff.mp hnil
      have hread := complete_nested hinner hroom ih hin
        (Closes.stops (.inl rfl) : Stops _ (⟨.mark .closeParen, position'⟩ :: rest))
      rw [reader, List.cons_append, List.append_assoc, List.singleton_append,
        parsePrimary.eq_def]
      simp only [hread]
      rfl
  | @call d s items hd hitems ih =>
      intro room hroom us rest hts hrest
      obtain ⟨position, us, rfl, hus⟩ := Token.exists_of_kinds_eq_cons hts
      obtain ⟨position', us, rfl, hin⟩ := Token.exists_of_kinds_eq_cons hus
      have hread : parseBracket stop .closeParen (parseNested stop room) (us ++ rest) =
          .ok (items.map Item.tree, rest) :=
        complete_bracket (.inl rfl)
          (fun x hx => complete_nested (hitems x hx) hroom (ih x hx)) hitems hin
      rw [reader, List.cons_append, List.cons_append, parsePrimary.eq_def]
      simp only [hread]
      rfl
  | @set d items hd hitems ih =>
      intro room hroom us rest hts hrest
      obtain ⟨position, us, rfl, hus⟩ := Token.exists_of_kinds_eq_cons hts
      have hread : parseBracket stop .closeBrace (parseNested stop room) (us ++ rest) =
          .ok (items.map Item.tree, rest) :=
        complete_bracket (.inr rfl)
          (fun x hx => complete_nested (hitems x hx) hroom (ih x hx)) hitems hus
      rw [reader, List.cons_append, parsePrimary.eq_def]
      simp only [hread]
      rfl

/-- A whole list of tokens is read as one expression exactly if the grammar derives it. -/
theorem parseOne_eq_ok_iff {ts : List Token} {e : Expr} :
    parseOne stop ts = .ok (e, []) ↔ Derives .expression 0 (Token.kinds ts) e := by
  constructor
  · intro h
    obtain ⟨pre, rfl, hpre⟩ :=
      (soundAt stop (Nat.zero_add _)).level .expression Category.noConfusion h
    rwa [List.append_nil]
  · intro h
    have hread : reader stop maxNesting .expression (ts ++ []) = .ok (e, []) :=
      complete_reader h maxNesting (Nat.zero_add _) rfl .nil
    rwa [List.append_nil] at hread

theorem parse_eq_ok_iff_parseOne {s : String} {tokens : Tokens}
    (hscan : Token.scan s = .ok tokens) {e : Expr} :
    parse s = .ok e ↔ parseOne tokens.stop tokens.items = .ok (e, []) := by
  unfold parse
  rw [hscan]
  constructor
  · intro h
    obtain ⟨_, ⟨⟩, hk⟩ := exists_of_bind_eq_ok h
    obtain ⟨⟨e', rest⟩, hone, hk⟩ := exists_of_bind_eq_ok hk
    obtain ⟨u, hend, hret⟩ := exists_of_bind_eq_ok hk
    cases hret
    unfold parseEnd at hend
    split at hend
    · rename_i hrest
      rw [List.isEmpty_iff.mp hrest] at hone
      exact hone
    · cases hend
  · intro h
    change (parseOne tokens.stop tokens.items >>= _) = _
    rw [h]
    rfl

/-- A text that is cut into tokens parses to a tree exactly if the grammar derives the tokens
with that tree, and it has at most one. -/
theorem parse_eq_ok_iff_derives {s : String} {tokens : Tokens}
    (hscan : Token.scan s = .ok tokens) :
    (∀ e, parse s = .ok e ↔ Derives .expression 0 (Token.kinds tokens.items) e) ∧
      ∀ e e', Derives .expression 0 (Token.kinds tokens.items) e →
        Derives .expression 0 (Token.kinds tokens.items) e' → e = e' := by
  have hiff (e : Expr) :
      parse s = .ok e ↔ Derives .expression 0 (Token.kinds tokens.items) e :=
    (parse_eq_ok_iff_parseOne hscan).trans parseOne_eq_ok_iff
  refine ⟨hiff, fun e e' h h' => ?_⟩
  have he := (hiff e).mpr h
  rw [(hiff e').mpr h'] at he
  cases he
  rfl

theorem parse_differences_iff_derives :
    let tokens : Tokens := ⟨[⟨.name "a", 0⟩, ⟨.mark .minus, 2⟩, ⟨.mark .bang, 4⟩, ⟨.name "f", 5⟩,
      ⟨.mark .openParen, 6⟩, ⟨.name "b", 7⟩, ⟨.mark .comma, 8⟩, ⟨.name "c", 10⟩,
      ⟨.mark .closeParen, 11⟩, ⟨.mark .minus, 13⟩, ⟨.mark .openBrace, 15⟩,
      ⟨.mark .closeBrace, 16⟩], 17⟩
    Token.scan "a - !f(b, c) - \x7b\x7d" = .ok tokens ∧
      (∀ e, parse "a - !f(b, c) - \x7b\x7d" = .ok e ↔
        Derives .expression 0 (Token.kinds tokens.items) e) ∧
      ∀ e e', Derives .expression 0 (Token.kinds tokens.items) e →
        Derives .expression 0 (Token.kinds tokens.items) e' → e = e' := by
  intro tokens
  have hscan : Token.scan "a - !f(b, c) - \x7b\x7d" = .ok tokens := by
    with_unfolding_all rfl
  exact ⟨hscan, parse_eq_ok_iff_derives hscan⟩

end Expr

end Preprocessor
