/-
How deep the tree of an expression can be.

The count of the grammar stands still in the operand that a chain of operators starts with, although
each operator of the chain puts that operand one deeper in the tree.  So the limit on the count is
no limit on the depth.  The limit holds for the depth as well exactly if it holds for a count that
follows the tree.  In general six chains inside each other, one for each level of operators and each
as long as the count allows, add up, and they do so again inside every bracket.  The depth is still
bounded, and the bound is met.
-/
import Mathlib.Tactic.Ring
import Preprocessor.Proofs.ExprCompleteness

namespace Preprocessor

namespace Expr

/-! ## Paths -/

/-- The expressions right below the top of a tree. -/
def children : Expr → List Expr
  | literal _ => []
  | .name _ => []
  | unary _ operand => [operand]
  | binary _ left right => [left, right]
  | call _ args => args
  | set items => items

/-- `Descends e n below`: a path of `n` edges leads from the top of `e` down to `below`. -/
inductive Descends : Expr → Nat → Expr → Prop
  | here (e : Expr) : Descends e 0 e
  | down {e child below : Expr} {n : Nat} :
      child ∈ e.children → Descends child n below → Descends e (n + 1) below

/-- No path of a tree has more than `k` edges. -/
def Within (k : Nat) (e : Expr) : Prop :=
  ∀ n below, Descends e n below → n ≤ k

namespace Within

variable {k m : Nat} {e : Expr}

theorem mono (h : Within k e) (hk : k ≤ m) : Within m e :=
  fun n below hpath => (h n below hpath).trans hk

theorem of_leaf (h : e.children = []) : Within k e := by
  intro n below hpath
  cases hpath with
  | here => exact Nat.zero_le k
  | down hchild _ =>
      rw [h] at hchild
      exact absurd hchild List.not_mem_nil

theorem of_children (h : ∀ child ∈ e.children, Within k child) : Within (k + 1) e := by
  intro n below hpath
  cases hpath with
  | here => exact Nat.zero_le (k + 1)
  | down hchild hrest => exact Nat.succ_le_succ (h _ hchild _ _ hrest)

/-- Each operator of a chain puts what stands before it one deeper. -/
theorem attach {links : List Link} (he : Within k e) (hlinks : ∀ l ∈ links, Within k l.tree) :
    Within (k + links.length) (links.foldl Link.attach e) := by
  induction links generalizing e k with
  | nil => exact he
  | cons l links ih =>
      obtain ⟨hl, hlinks⟩ := List.forall_mem_cons.mp hlinks
      have hfirst : Within (k + 1) (Link.attach e l) := by
        refine of_children fun child hchild => ?_
        rcases List.mem_cons.mp hchild with rfl | hchild
        · exact he
        · rw [List.mem_singleton.mp hchild]
          exact hl
      have hrest := ih hfirst fun l' hl' => (hlinks l' hl').mono (Nat.le_succ k)
      rw [List.length_cons, Nat.add_comm links.length 1, ← Nat.add_assoc]
      exact hrest

end Within

theorem Descends.attach {e below : Expr} {n : Nat} (h : Descends e n below) (links : List Link) :
    Descends (links.foldl Link.attach e) (n + links.length) below := by
  induction links generalizing e n with
  | nil => exact h
  | cons l links ih =>
      have hfirst : Descends (Link.attach e l) (n + 1) below :=
        .down List.mem_cons_self h
      rw [List.length_cons, Nat.add_comm links.length 1, ← Nat.add_assoc]
      exact ih hfirst

/-- The operand after an operator stands as deep as there are operators from this one on. -/
theorem Descends.link {e below : Expr} {n i : Nat} {links : List Link} (hi : i < links.length)
    (h : Descends links[i].tree n below) :
    Descends (links.foldl Link.attach e) (n + (links.length - i)) below := by
  induction links generalizing e i with
  | nil => exact absurd hi (Nat.not_lt_zero i)
  | cons l links ih =>
      cases i with
      | zero =>
          have hfirst : Descends (Link.attach e l) (n + 1) below :=
            .down (List.mem_cons_of_mem _ List.mem_cons_self) h
          rw [List.length_cons, Nat.sub_zero, Nat.add_comm links.length 1, ← Nat.add_assoc]
          exact hfirst.attach links
      | succ i =>
          rw [List.length_cons, Nat.succ_sub_succ]
          exact ih (Nat.lt_of_succ_lt_succ hi) h

end Expr

/-! ## A count that follows the tree -/

/-- `Counted c d ts e`: the tokens `ts` are of category `c` with tree `e`, and stand at depth `d`
of a tree that is nowhere deeper than the limit.  All operators of a chain count for the operand
that it starts with, and those from one on for the operand after it; parentheses do not count. -/
inductive Counted : Category → Nat → List TokenKind → Expr → Prop
  | chain {s : Stratum} {d : Nat} {first : List TokenKind} {e : Expr} {links : List Link} :
      Counted s.operand (d + links.length) first e →
      (∀ l ∈ links, (l.mark, l.op) ∈ s.operators) →
      (∀ (i : Nat) (h : i < links.length),
        Counted s.operand (d + (links.length - i)) links[i].tokens links[i].tree) →
      Counted (.binary s) d (first ++ links.flatMap Link.text) (links.foldl Link.attach e)
  | leading {m : Mark} {op : UnaryOp} {d : Nat} {ts : List TokenKind} {e : Expr} :
      (m, op) ∈ Category.leadingOperators →
      Counted .unary (d + 1) ts e →
      Counted .unary d (.mark m :: ts) (.unary op e)
  | operand {d : Nat} {ts : List TokenKind} {e : Expr} :
      Counted .primary d ts e →
      Counted .unary d ts e
  | literal {d : Nat} {v : Value} :
      d ≤ Expr.maxNesting →
      Counted .primary d [.literal v] (.literal v)
  | name {d : Nat} {s : String} :
      d ≤ Expr.maxNesting →
      Counted .primary d [.name s] (.name s)
  | parenthesis {d : Nat} {ts : List TokenKind} {e : Expr} :
      Counted .expression d ts e →
      Counted .primary d (.mark .openParen :: (ts ++ [.mark .closeParen])) e
  | call {d : Nat} {s : String} {items : List Item} :
      d ≤ Expr.maxNesting →
      (∀ x ∈ items, Counted .expression (d + 1) x.tokens x.tree) →
      Counted .primary d
        (.name s :: .mark .openParen :: (Item.listed items ++ [.mark .closeParen]))
        (.call s (items.map Item.tree))
  | set {d : Nat} {items : List Item} :
      d ≤ Expr.maxNesting →
      (∀ x ∈ items, Counted .expression (d + 1) x.tokens x.tree) →
      Counted .primary d (.mark .openBrace :: (Item.listed items ++ [.mark .closeBrace]))
        (.set (items.map Item.tree))

/-- A tree at depth `d` does not go deeper than the limit. -/
def Expr.Under (d : Nat) (e : Expr) : Prop :=
  ∀ n below, Descends e n below → d + n ≤ maxNesting

namespace Expr.Under

variable {d : Nat} {e : Expr}

theorem le (h : Under d e) : d ≤ maxNesting :=
  h 0 e (.here e)

theorem of_children (hd : d ≤ maxNesting) (h : ∀ child ∈ e.children, Under (d + 1) child) :
    Under d e := by
  intro n below hpath
  cases hpath with
  | here => exact hd
  | down hchild hrest =>
      have hbelow := h _ hchild _ _ hrest
      omega

theorem child (h : Under d e) {child : Expr} (hchild : child ∈ e.children) :
    Under (d + 1) child := by
  intro n below hpath
  have hbelow := h (n + 1) below (.down hchild hpath)
  omega

theorem attach {links : List Link} (he : Under (d + links.length) e)
    (hlinks : ∀ (i : Nat) (h : i < links.length), Under (d + (links.length - i)) links[i].tree) :
    Under d (links.foldl Link.attach e) := by
  induction links generalizing e with
  | nil => exact he
  | cons l links ih =>
      refine ih (.of_children ?_ fun child hchild => ?_) fun i hi => ?_
      · exact (Nat.le_succ (d + links.length)).trans he.le
      · rcases List.mem_cons.mp hchild with rfl | hchild
        · exact he
        · rw [List.mem_singleton.mp hchild]
          exact hlinks 0 (Nat.succ_pos links.length)
      · have hlink := hlinks (i + 1) (Nat.succ_lt_succ hi)
        rwa [List.length_cons, Nat.succ_sub_succ] at hlink

end Expr.Under

theorem Counted.under {c : Category} {d : Nat} {ts : List TokenKind} {e : Expr}
    (h : Counted c d ts e) : Expr.Under d e := by
  induction h with
  | chain hfirst hmarks hlinks ihfirst ihlinks => exact ihfirst.attach ihlinks
  | leading hop hoperand ih =>
      exact .of_children ((Nat.le_succ _).trans ih.le) (List.forall_mem_singleton.mpr ih)
  | operand hprimary ih => exact ih
  | literal hd => exact .of_children hd fun child hchild => absurd hchild List.not_mem_nil
  | name hd => exact .of_children hd fun child hchild => absurd hchild List.not_mem_nil
  | parenthesis hinner ih => exact ih
  | call hd hitems ih => exact .of_children hd (List.forall_mem_map.mpr ih)
  | set hd hitems ih => exact .of_children hd (List.forall_mem_map.mpr ih)

/-- What the grammar derives is counted at a depth, if its tree does not go deeper than the limit
from there. -/
theorem Derives.counted {c : Category} {d d' : Nat} {ts : List TokenKind} {e : Expr}
    (h : Derives c d ts e) (hunder : Expr.Under d' e) : Counted c d' ts e := by
  induction h generalizing d' with
  | @chain s d first e links hd hfirst hmarks hlinks ihfirst ihlinks =>
      refine .chain (ihfirst fun n below hpath => ?_) hmarks fun i hi => ihlinks i hi ?_
      · have hbelow := hunder _ below (hpath.attach links)
        omega
      · intro n below hpath
        have hbelow := hunder _ below (Expr.Descends.link hi hpath)
        omega
  | leading hd hop hoperand ih => exact .leading hop (ih (hunder.child List.mem_cons_self))
  | operand hd hprimary ih => exact .operand (ih hunder)
  | literal hd => exact .literal hunder.le
  | name hd => exact .name hunder.le
  | parenthesis hd hinner ih => exact .parenthesis (ih hunder)
  | call hd hitems ih =>
      exact .call hunder.le fun x hx => ih x hx (hunder.child (List.mem_map_of_mem hx))
  | set hd hitems ih =>
      exact .set hunder.le fun x hx => ih x hx (hunder.child (List.mem_map_of_mem hx))

/-! ## The bound -/

/-- The most edges of a path in an operand, where the count leaves so much room: those of a whole
expression with one unit less, and one to get there. -/
def operandDepth : Nat → Nat
  | 0 => 0
  | room + 1 => operandDepth room + BinaryOp.levels * room + 1

/-- The most edges of a path in a tree of a category: a chain for each stratum. -/
def Category.depth (c : Category) (room : Nat) : Nat :=
  operandDepth room + c.level * room

@[simp] theorem Category.depth_unary (room : Nat) :
    Category.unary.depth room = operandDepth room := by
  simp [Category.depth, Category.level]

@[simp] theorem Category.depth_primary (room : Nat) :
    Category.primary.depth room = operandDepth room := by
  simp [Category.depth, Category.level]

theorem Category.depth_expression (room : Nat) :
    Category.expression.depth room + 1 = operandDepth (room + 1) := rfl

theorem Stratum.depth_operand (s : Stratum) (room : Nat) :
    s.operand.depth room + room = (Category.binary s).depth room := by
  rw [Category.depth, Category.depth, s.level_operand]
  simp only [Category.level]
  ring

theorem operandDepth_mono {room room' : Nat} (h : room ≤ room') :
    operandDepth room ≤ operandDepth room' := by
  induction h with
  | refl => exact Nat.le_refl _
  | step _ ih => exact ih.trans (by rw [operandDepth]; omega)

theorem Category.depth_mono (c : Category) {room room' : Nat} (h : room ≤ room') :
    c.depth room ≤ c.depth room' :=
  Nat.add_le_add (operandDepth_mono h) (Nat.mul_le_mul_left c.level h)

theorem operandDepth_add (room : Nat) : operandDepth room + 2 * room = 3 * room ^ 2 := by
  induction room with
  | zero => rfl
  | succ room ih =>
      calc operandDepth (room + 1) + 2 * (room + 1)
          = (operandDepth room + 2 * room) + 6 * room + 3 := by
            simp only [operandDepth, BinaryOp.levels]
            ring
        _ = 3 * room ^ 2 + 6 * room + 3 := by rw [ih]
        _ = 3 * (room + 1) ^ 2 := by ring

theorem Category.depth_expression_eq (room : Nat) :
    Category.expression.depth room = 3 * room ^ 2 + 4 * room := by
  have hroom := operandDepth_add room
  simp only [Category.depth, Category.level, Stratum.inner]
  omega

/-- Where no item stands deeper than an expression may, neither does what holds them. -/
theorem Expr.within_of_items {d : Nat} {items : List Item} {e : Expr}
    (he : e.children = items.map Item.tree)
    (hitems : ∀ x ∈ items, Derives .expression (d + 1) x.tokens x.tree)
    (h : ∀ x ∈ items, Within (Category.expression.depth (maxNesting - (d + 1))) x.tree) :
    Within (Category.primary.depth (maxNesting - d)) e := by
  cases items with
  | nil => exact .of_leaf he
  | cons x items =>
      have hd := (hitems x List.mem_cons_self).le_maxNesting
      rw [show maxNesting - d = maxNesting - (d + 1) + 1 by omega, Category.depth_primary,
        ← Category.depth_expression]
      refine .of_children fun child hchild => ?_
      rw [he] at hchild
      obtain ⟨y, hy, rfl⟩ := List.mem_map.mp hchild
      exact h y hy

/-- A tree is no deeper than its category allows with the room that its count leaves. -/
theorem Derives.within {c : Category} {d : Nat} {ts : List TokenKind} {e : Expr}
    (h : Derives c d ts e) : Expr.Within (c.depth (Expr.maxNesting - d)) e := by
  induction h with
  | @chain s d first e links hd hfirst hmarks hlinks ihfirst ihlinks =>
      -- the last operand stands as many deeper as there are operators
      have hroom : links.length ≤ Expr.maxNesting - d := by
        rcases Nat.eq_zero_or_pos links.length with hzero | hpos
        · omega
        · have hlast := (hlinks (links.length - 1) (by omega)).le_maxNesting
          omega
      have hall : ∀ l ∈ links, Expr.Within (s.operand.depth (Expr.maxNesting - d)) l.tree := by
        intro l hl
        obtain ⟨i, hi, rfl⟩ := List.getElem_of_mem hl
        exact (ihlinks i hi).mono (s.operand.depth_mono (by omega))
      refine (ihfirst.attach hall).mono ?_
      rw [← s.depth_operand]
      exact Nat.add_le_add_left hroom _
  | @leading m op d ts e hd hop hoperand ih =>
      obtain ⟨room, hroom⟩ := Nat.exists_eq_add_of_le' hoperand.le_maxNesting
      rw [show Expr.maxNesting - (d + 1) = room by omega] at ih
      rw [show Expr.maxNesting - d = room + 1 by omega]
      refine (Expr.Within.of_children (k := operandDepth room) ?_).mono ?_
      · rw [Category.depth_unary] at ih
        exact List.forall_mem_singleton.mpr ih
      · rw [Category.depth_unary, operandDepth]
        omega
  | operand hd hprimary ih =>
      rw [Category.depth_unary]
      rwa [Category.depth_primary] at ih
  | literal hd => exact .of_leaf rfl
  | name hd => exact .of_leaf rfl
  | @parenthesis d ts e hd hinner ih =>
      obtain ⟨room, hroom⟩ := Nat.exists_eq_add_of_le' hinner.le_maxNesting
      rw [show Expr.maxNesting - (d + 1) = room by omega] at ih
      rw [show Expr.maxNesting - d = room + 1 by omega, Category.depth_primary,
        ← Category.depth_expression]
      exact ih.mono (Nat.le_succ _)
  | @call d s items hd hitems ih => exact Expr.within_of_items rfl hitems ih
  | @set d items hd hitems ih => exact Expr.within_of_items rfl hitems ih

/-! ## Texts of tokens -/

namespace Token

theorem scanFrom_blank {c : Char} (h : Text.isBlank c = true) (position : Nat)
    (rest : List Char) : scanFrom position (c :: rest) = scanFrom (position + 1) rest := by
  rw [scanFrom, if_pos h]

theorem scanFrom_of_read {c : Char} {rest : List Char} {kind : TokenKind} {count : Nat}
    (hblank : Text.isBlank c = false) (hread : readFrom c rest = .ok (kind, count))
    (position : Nat) :
    scanFrom position (c :: rest) =
      (scanFrom (position + max 1 count) (rest.drop (count - 1))).map fun ts =>
        { ts with items := ⟨kind, position⟩ :: ts.items } := by
  rw [scanFrom, if_neg (by rw [hblank]; exact Bool.false_ne_true), hread]

/-- Reads as a token: the characters, in front of a blank, are cut off as this token. -/
def ReadsAs (cs : List Char) (k : TokenKind) : Prop :=
  ∃ c more, cs = c :: more ∧ Text.isBlank c = false ∧
    ∀ rest, readFrom c (more ++ ' ' :: rest) = .ok (k, more.length + 1)

theorem readsAs_mark (m : Mark) : ReadsAs m.lexeme.toList (.mark m) := by
  cases m <;> exact ⟨_, _, rfl, rfl, fun _ => rfl⟩

theorem readsAs_x : ReadsAs ['x'] (.name "x") :=
  ⟨_, _, rfl, rfl, fun _ => rfl⟩

theorem ReadsAs.scanFrom {cs : List Char} {k : TokenKind} (h : ReadsAs cs k) (position : Nat)
    (rest : List Char) :
    ∃ next, scanFrom position (cs ++ ' ' :: rest) =
      (scanFrom next rest).map fun ts => { ts with items := ⟨k, position⟩ :: ts.items } := by
  obtain ⟨c, more, rfl, hblank, hread⟩ := h
  refine ⟨position + max 1 (more.length + 1) + 1, ?_⟩
  rw [List.cons_append, scanFrom_of_read hblank (hread rest), Nat.add_sub_cancel, List.drop_left,
    scanFrom_blank rfl]

theorem exists_scan {ks : List TokenKind} (h : ∀ k ∈ ks, ∃ cs, ReadsAs cs k) :
    ∃ s tokens, scan s = .ok tokens ∧ kinds tokens.items = ks := by
  suffices hchars : ∃ cs, ∀ position, ∃ tokens, Token.scanFrom position cs = .ok tokens ∧
      kinds tokens.items = ks by
    obtain ⟨cs, hcs⟩ := hchars
    obtain ⟨tokens, hscan, hkinds⟩ := hcs 0
    exact ⟨String.ofList cs, tokens, by rw [scan, String.toList_ofList, hscan], hkinds⟩
  induction ks with
  | nil => exact ⟨[], fun position => ⟨⟨[], position⟩, by rw [Token.scanFrom], rfl⟩⟩
  | cons k ks ih =>
      obtain ⟨⟨cs, hcs⟩, hks⟩ := List.forall_mem_cons.mp h
      obtain ⟨more, hmore⟩ := ih hks
      refine ⟨cs ++ ' ' :: more, fun position => ?_⟩
      obtain ⟨next, hscan⟩ := hcs.scanFrom position more
      obtain ⟨tokens, hrest, hkinds⟩ := hmore next
      refine ⟨_, by rw [hscan, hrest]; rfl, ?_⟩
      rw [kinds_cons, hkinds]

end Token

/-! ## Trees that meet the bound -/

namespace Derives

variable {d : Nat} {ts : List TokenKind} {e : Expr}

theorem single {s : Stratum} (h : Derives s.operand d ts e) : Derives (.binary s) d ts e := by
  have hchain : Derives (.binary s) d (ts ++ [].flatMap Link.text) e :=
    .chain h.le_maxNesting h (List.forall_mem_nil _) fun i hi => absurd hi (Nat.not_lt_zero i)
  rwa [List.flatMap_nil, List.append_nil] at hchain

theorem ofUnary (h : Derives .unary d ts e) (s : Stratum) : Derives (.binary s) d ts e := by
  have hmultiplicative : Derives (.binary .multiplicative) d ts e := .single h
  have hadditive : Derives (.binary .additive) d ts e := .single hmultiplicative
  have hrelation : Derives (.binary .relation) d ts e := .single hadditive
  have hequality : Derives (.binary .equality) d ts e := .single hrelation
  have hand : Derives (.binary .and) d ts e := .single hequality
  have hor : Derives (.binary .or) d ts e := .single hand
  cases s <;> assumption

theorem ofPrimary (h : Derives .primary d ts e) (c : Category) : Derives c d ts e := by
  have hunary : Derives .unary d ts e := .operand h.le_maxNesting h
  cases c with
  | primary => exact h
  | unary => exact hunary
  | binary s => exact hunary.ofUnary s

theorem ofName (hd : d ≤ Expr.maxNesting) (s : String) (c : Category) :
    Derives c d [.name s] (.name s) :=
  .ofPrimary (.name hd) c

end Derives

/-- `Deep c d n`: some tokens of category `c` that can be written have, at count `d`, a tree with a
path of `n` edges to a leaf. -/
def Deep (c : Category) (d n : Nat) : Prop :=
  ∃ ts e leaf, Derives c d ts e ∧ Expr.Descends e n leaf ∧ leaf.children = [] ∧
    ∀ k ∈ ts, ∃ cs, Token.ReadsAs cs k

namespace Deep

variable {d n room : Nat}

/-- Names put behind an operand, as many as the count allows, each with an operator of the
stratum. -/
theorem chain {s : Stratum} (h : Deep s.operand d n) (hroom : d + room = Expr.maxNesting) :
    Deep (.binary s) d (n + room) := by
  obtain ⟨ts, e, leaf, hderives, hpath, hleaf, hwritten⟩ := h
  obtain ⟨⟨m, op⟩, hop⟩ : ∃ o, o ∈ s.operators := by
    cases s <;> exact ⟨_, List.mem_cons_self⟩
  let links : List Link := List.replicate room ⟨m, op, [.name "x"], .name "x"⟩
  have hlength : links.length = room := List.length_replicate
  have hlinks : ∀ l ∈ links, l = ⟨m, op, [.name "x"], .name "x"⟩ :=
    fun l hl => List.eq_of_mem_replicate hl
  refine ⟨ts ++ links.flatMap Link.text, links.foldl Link.attach e, leaf, ?_, ?_, hleaf, ?_⟩
  · refine .chain hderives.le_maxNesting hderives (fun l hl => ?_) fun i hi => ?_
    · rw [hlinks l hl]
      exact hop
    · rw [hlinks links[i] (List.getElem_mem hi)]
      exact .ofName (by omega) "x" s.operand
  · have hdown := hpath.attach links
    rwa [hlength] at hdown
  · intro k hk
    rcases List.mem_append.mp hk with hk | hk
    · exact hwritten k hk
    · obtain ⟨l, hl, hk⟩ := List.mem_flatMap.mp hk
      rw [hlinks l hl] at hk
      rcases List.mem_cons.mp hk with rfl | hk
      · exact ⟨_, Token.readsAs_mark m⟩
      · rw [List.mem_singleton.mp hk]
        exact ⟨_, Token.readsAs_x⟩

theorem expression (h : Deep .primary d n) (hroom : d + room = Expr.maxNesting) :
    Deep .expression d (n + BinaryOp.levels * room) := by
  have hunary : Deep (Stratum.operand .multiplicative) d n := by
    obtain ⟨ts, e, leaf, hderives, hpath⟩ := h
    exact ⟨ts, e, leaf, .operand hderives.le_maxNesting hderives, hpath⟩
  have hmultiplicative : Deep (Stratum.operand .additive) d (n + room) := hunary.chain hroom
  have hadditive : Deep (Stratum.operand .relation) d (n + room + room) :=
    hmultiplicative.chain hroom
  have hrelation : Deep (Stratum.operand .equality) d (n + room + room + room) :=
    hadditive.chain hroom
  have hequality : Deep (Stratum.operand .and) d (n + room + room + room + room) :=
    hrelation.chain hroom
  have hand : Deep (Stratum.operand .or) d (n + room + room + room + room + room) :=
    hequality.chain hroom
  have hor := hand.chain hroom
  rwa [show n + BinaryOp.levels * room = n + room + room + room + room + room + room by
    simp only [BinaryOp.levels]; ring]

theorem call (h : Deep .expression (d + 1) n) : Deep .primary d (n + 1) := by
  obtain ⟨ts, e, leaf, hderives, hpath, hleaf, hwritten⟩ := h
  have hd : d ≤ Expr.maxNesting := (Nat.le_succ d).trans hderives.le_maxNesting
  have hitems : ∀ x ∈ [Item.mk ts e], Derives .expression (d + 1) x.tokens x.tree :=
    List.forall_mem_singleton.mpr hderives
  refine ⟨_, _, leaf, .call (s := "x") hd hitems, .down List.mem_cons_self hpath, hleaf, ?_⟩
  intro k hk
  simp only [Item.listed, List.map_cons, List.map_nil, List.intercalate_singleton, List.mem_cons,
    List.mem_append, List.not_mem_nil, or_false] at hk
  rcases hk with rfl | rfl | hk | rfl
  · exact ⟨_, Token.readsAs_x⟩
  · exact ⟨_, Token.readsAs_mark .openParen⟩
  · exact hwritten k hk
  · exact ⟨_, Token.readsAs_mark .closeParen⟩

/-- An operand meets the bound, by induction on the room. -/
theorem operand (hroom : d + room = Expr.maxNesting) : Deep .primary d (operandDepth room) := by
  induction room generalizing d with
  | zero =>
      refine ⟨[.name "x"], .name "x", .name "x", .name (by omega), .here _, rfl, ?_⟩
      exact List.forall_mem_singleton.mpr ⟨_, Token.readsAs_x⟩
  | succ room ih => exact ((ih (d := d + 1) (by omega)).expression (by omega)).call

/-- So does an expression. -/
theorem meets (hroom : d + room = Expr.maxNesting) :
    Deep .expression d (Category.expression.depth room) :=
  (operand hroom).expression hroom

end Deep

namespace Expr

/-- The tree of an expression that is read is nowhere deeper than the limit `n` on nesting if and
only if its tokens are counted with the count that follows the tree; in any case no path of it has
more than `3 n² + 4 n` edges. -/
theorem descends_le_maxNesting_iff {s : String} {tokens : Tokens}
    (hscan : Token.scan s = .ok tokens) {e : Expr} (h : parse s = .ok e) :
    ((∀ n below, Descends e n below → n ≤ maxNesting) ↔
        Counted .expression 0 (Token.kinds tokens.items) e) ∧
      ∀ n below, Descends e n below → n ≤ 3 * maxNesting ^ 2 + 4 * maxNesting := by
  have hderives := parseOne_eq_ok_iff.mp ((parse_eq_ok_iff_parseOne hscan).mp h)
  have hunder : Under 0 e ↔ ∀ n below, Descends e n below → n ≤ maxNesting := by
    simp only [Under, Nat.zero_add]
  refine ⟨hunder.symm.trans ⟨hderives.counted, Counted.under⟩, fun n below hpath => ?_⟩
  have hbound := hderives.within n below hpath
  rwa [Nat.sub_zero, Category.depth_expression_eq] at hbound

theorem counted_sum :
    let e : Expr := .binary .add (.binary .mul (.name "a") (.name "b")) (.call "f" [.name "c"])
    let tokens : Tokens := ⟨[⟨.name "a", 0⟩, ⟨.mark .star, 2⟩, ⟨.name "b", 4⟩, ⟨.mark .plus, 6⟩,
      ⟨.name "f", 8⟩, ⟨.mark .openParen, 9⟩, ⟨.name "c", 10⟩, ⟨.mark .closeParen, 11⟩], 12⟩
    Token.scan "a * b + f(c)" = .ok tokens ∧ parse "a * b + f(c)" = .ok e ∧
      Counted .expression 0 (Token.kinds tokens.items) e := by
  intro e tokens
  have hscan : Token.scan "a * b + f(c)" = .ok tokens := by with_unfolding_all rfl
  have hparse : parse "a * b + f(c)" = .ok e := by with_unfolding_all rfl
  have hdepth : Within 2 e := by
    refine .of_children fun child hchild => .of_children fun leaf hleaf => .of_leaf ?_
    simp only [e, children, List.mem_cons, List.not_mem_nil, or_false] at hchild
    rcases hchild with rfl | rfl
    · simp only [children, List.mem_cons, List.not_mem_nil, or_false] at hleaf
      rcases hleaf with rfl | rfl <;> rfl
    · rw [List.mem_singleton.mp hleaf]
      rfl
  have hlimit : 2 ≤ maxNesting := by decide
  exact ⟨hscan, hparse, (descends_le_maxNesting_iff hscan hparse).1.mp (hdepth.mono hlimit)⟩

/-- Some expression has a path of as many edges to a leaf, far more than the limit. -/
theorem exists_parse_descends :
    ∃ s e leaf, parse s = .ok e ∧ Descends e (3 * maxNesting ^ 2 + 4 * maxNesting) leaf ∧
      leaf.children = [] ∧ maxNesting < 3 * maxNesting ^ 2 + 4 * maxNesting := by
  obtain ⟨ts, e, leaf, hderives, hpath, hleaf, hwritten⟩ := Deep.meets (Nat.zero_add maxNesting)
  obtain ⟨s, tokens, hscan, rfl⟩ := Token.exists_scan hwritten
  rw [Category.depth_expression_eq] at hpath
  have hparse := (parse_eq_ok_iff_parseOne hscan).mpr (parseOne_eq_ok_iff.mpr hderives)
  exact ⟨s, e, leaf, hparse, hpath, hleaf, by decide⟩

end Expr

end Preprocessor
