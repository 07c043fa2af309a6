/-
What the routines of a reader in place do to the cursor.

A call is sound if it keeps to the slots and to the limit of nesting, gives back the levels that it
opened, and takes a token if it is a round of a loop.  Here computations are put together from parts
that end with a result or a fault and make sound calls only, down to the routines that look at a
slot, take one and open or close a level.
-/
import Mathlib.Order.Nat
import Preprocessor.Proofs.Computation
import Preprocessor.Proofs.CursorReading

namespace Preprocessor

/-! ## Sound calls -/

/-- A call of a routine keeps to the tokens and to the limit of nesting. -/
structure Routine.Call.Sound (ts : Tokens) (call : Routine.Call) : Prop where
  /-- The index does not decrease, -/
  forward : call.entry.index ≤ call.exit.index
  /-- and does not pass the slot of the end. -/
  inside : call.exit.index ≤ ts.items.length
  /-- The levels that were open stay open, -/
  kept : call.entry.depth ≤ call.exit.depth
  /-- and there are never more than the limit. -/
  limited : call.exit.depth ≤ Expr.maxNesting
  /-- All that was opened is closed, but by the routines that open levels for their caller. -/
  restored : call.routine.deepens = false → call.exit.depth = call.entry.depth
  /-- A round of a loop takes a token. -/
  progress : call.routine.isRound = true → call.succeeded = true →
    call.entry.index < call.exit.index

theorem Routine.Call.Sound.of_restored {ts : Tokens} {routine : Routine} {c c' : Cursor}
    {succeeded : Bool} (hround : routine.isRound = false) (hforward : c.index ≤ c'.index)
    (hinside : c'.index ≤ ts.items.length) (hlimited : c.depth ≤ Expr.maxNesting)
    (hdepth : c'.depth = c.depth) : Routine.Call.Sound ts ⟨routine, c, c', succeeded⟩ where
  forward := hforward
  inside := hinside
  kept := hdepth.ge
  limited := hdepth.trans_le hlimited
  restored _ := hdepth
  progress hloop := absurd (hround.symm.trans hloop) Bool.false_ne_true

namespace Cursor

/-- A cursor among the slots, with no more levels open than there may be. -/
structure Valid (ts : Tokens) (c : Cursor) : Prop where
  inside : c.index ≤ ts.items.length
  limited : c.depth ≤ Expr.maxNesting

def next (c : Cursor) : Cursor :=
  { c with index := c.index + 1 }

/-- The cursor one level further in. -/
def inner (c : Cursor) : Cursor :=
  { c with depth := c.depth + 1 }

variable {ts : Tokens} {c : Cursor}

theorem Valid.next (hc : c.Valid ts) (hlt : c.index < ts.items.length) : c.next.Valid ts :=
  ⟨hlt, hc.limited⟩

theorem Valid.inner (hc : c.Valid ts) (hroom : c.depth < Expr.maxNesting) : c.inner.Valid ts :=
  ⟨hc.inside, hroom⟩

theorem left_next {limit : Nat} (hlt : c.index < ts.items.length)
    (hlimit : ts.items.length - c.index < limit + 1) : ts.items.length - c.next.index < limit := by
  unfold Cursor.next
  dsimp only
  omega

theorem room_inner {room : Nat} (h : Expr.maxNesting - c.depth = room + 1) :
    c.depth < Expr.maxNesting ∧ Expr.maxNesting - c.inner.depth = room := by
  unfold Cursor.inner
  dsimp only
  omega

end Cursor

def Tokens.from (ts : Tokens) (c : Cursor) : List Token :=
  ts.items.drop c.index

def Tokens.front (ts : Tokens) : List Token → Option TokenKind × Nat
  | [] => (none, ts.stop)
  | t :: _ => (some t.kind, t.position)

theorem Tokens.isNone_front (ts : Tokens) (us : List Token) :
    (ts.front us).1.isNone = us.isEmpty := by
  cases us <;> rfl

theorem Tokens.slots_getElem? {ts : Tokens} {c : Cursor} (hc : c.Valid ts) :
    ts.slots[c.index]? = some (ts.front (ts.from c)) := by
  unfold slots Tokens.from
  rcases hc.inside.lt_or_eq with hlt | heq
  · rw [List.getElem?_append_left (by simpa using hlt), List.drop_eq_getElem_cons hlt,
      List.getElem?_map, List.getElem?_eq_getElem hlt]
    rfl
  · rw [List.getElem?_append_right (by simp [heq]), heq, List.drop_length]
    simp [front]

theorem Tokens.from_next {ts : Tokens} {c : Cursor} {t : Token} {rest : List Token}
    (h : ts.from c = t :: rest) : c.index < ts.items.length ∧ ts.from c.next = rest := by
  have hlt : c.index < ts.items.length := by
    by_contra hge
    rw [Tokens.from, List.drop_of_length_le (not_lt.mp hge)] at h
    cases h
  refine ⟨hlt, ?_⟩
  rw [Tokens.from, List.drop_eq_getElem_cons hlt] at h
  exact (List.cons.inj h).2

namespace InPlace

variable {α β : Type} {ts : Tokens} {c c' c₁ : Cursor}

/-! ## Endings -/

/-- From a cursor a computation comes to a result or a fault at another cursor, and all its calls
are sound. -/
def Ends (ts : Tokens) (x : InPlace α) (c : Cursor) (r : Except ParseError α) (c' : Cursor) :
    Prop :=
  ∀ calls, ∃ new, x.run ⟨c, calls⟩ = (r.mapError Breakdown.fault, ⟨c', new ++ calls⟩) ∧
    ∀ call ∈ new, call.Sound ts

namespace Ends

variable {x : InPlace α} {f : α → InPlace β} {r : Except ParseError α} {r' : Except ParseError β}

theorem pure (a : α) : Ends ts (pure a) c (.ok a) c :=
  fun _ => ⟨[], rfl, List.forall_mem_nil _⟩

theorem throw (e : ParseError) : Ends ts (throw (.fault e) : InPlace α) c (.error e) c :=
  fun _ => ⟨[], rfl, List.forall_mem_nil _⟩

theorem here : Ends ts here c (.ok c) c :=
  fun _ => ⟨[], rfl, List.forall_mem_nil _⟩

theorem put : Ends ts (put c') c (.ok ()) c' :=
  fun _ => ⟨[], rfl, List.forall_mem_nil _⟩

theorem settle (r : Except ParseError α) : Ends ts (settle r) c r c := by
  cases r with
  | ok a => exact .pure a
  | error e => exact .throw e

theorem bind_ok {a : α} (hx : Ends ts x c (.ok a) c₁) (hf : Ends ts (f a) c₁ r' c') :
    Ends ts (x >>= f) c r' c' := by
  intro calls
  obtain ⟨new, hrun, hnew⟩ := hx calls
  obtain ⟨new', hrun', hnew'⟩ := hf (new ++ calls)
  refine ⟨new' ++ new, ?_, List.forall_mem_append.mpr ⟨hnew', hnew⟩⟩
  rw [run_bind_of_ok hrun, hrun', List.append_assoc]

theorem bind_error {e : ParseError} (hx : Ends ts x c (.error e) c') :
    Ends ts (x >>= f) c (.error e) c' := by
  intro calls
  obtain ⟨new, hrun, hnew⟩ := hx calls
  exact ⟨new, run_bind_of_error hrun, hnew⟩

theorem attempt (hx : Ends ts x c r c') : Ends ts (attempt x) c (.ok r) c' := by
  intro calls
  obtain ⟨new, hrun, hnew⟩ := hx calls
  refine ⟨new, ?_, hnew⟩
  rw [run_attempt, hrun]
  cases r <;> rfl

theorem called {routine : Routine} (hx : Ends ts x c r c')
    (hsound : Routine.Call.Sound ts ⟨routine, c, c', r.isOk⟩) :
    Ends ts (called routine x) c r c' := by
  intro calls
  obtain ⟨new, hrun, hnew⟩ := hx calls
  refine ⟨⟨routine, c, c', r.isOk⟩ :: new, ?_, List.forall_mem_cons.mpr ⟨hsound, hnew⟩⟩
  rw [run_called, hrun]
  cases r <;> rfl

end Ends

/-! ## Taking tokens -/

section

variable (hc : c.Valid ts)
include hc

theorem ends_still {x : InPlace α} {r : Except ParseError α} {routine : Routine}
    (hround : routine.isRound = false) (hx : Ends ts x c r c) : Ends ts (called routine x) c r c :=
  hx.called (.of_restored hround le_rfl hc.inside hc.limited rfl)

theorem ends_slot : Ends ts (slot ts) c (.ok (ts.front (ts.from c))) c := by
  refine Ends.bind_ok .here ?_
  rw [Tokens.slots_getElem? hc]
  exact .pure _

theorem ends_fail (fault : ParseFault) :
    Ends ts (fail ts fault : InPlace α) c (Expr.faultAt ts.stop (ts.from c) fault) c := by
  have hposition : (ts.front (ts.from c)).2 = Expr.positionOf ts.stop (ts.from c) := by
    cases ts.from c <;> rfl
  rw [Expr.faultAt, ← hposition]
  exact (ends_slot hc).bind_ok (.throw _)

theorem ends_peek : Ends ts (peek ts) c (.ok (ts.front (ts.from c)).1) c := by
  refine ends_still hc rfl ?_
  exact (ends_slot hc).bind_ok (.pure _)

theorem ends_advance_of_nil (hfrom : ts.from c = []) :
    Ends ts (advance ts) c (.ok (none, ts.stop)) c := by
  have hslot := ends_slot hc
  rw [hfrom] at hslot
  refine ends_still hc rfl (hslot.bind_ok ?_)
  refine Ends.here.bind_ok ?_
  exact Ends.put.bind_ok (.pure _)

theorem ends_advance {t : Token} {rest : List Token} (hfrom : ts.from c = t :: rest) :
    Ends ts (advance ts) c (.ok (some t.kind, t.position)) c.next := by
  have hslot := ends_slot hc
  rw [hfrom] at hslot
  refine Ends.called (hslot.bind_ok ?_)
    (.of_restored rfl (Nat.le_succ _) (Tokens.from_next hfrom).1 hc.limited rfl)
  refine Ends.here.bind_ok ?_
  exact Ends.put.bind_ok (.pure _)

theorem ends_eat {m : Mark} {position : Nat} {rest : List Token}
    (hfrom : ts.from c = ⟨.mark m, position⟩ :: rest) : Ends ts (eat ts m) c (.ok true) c.next := by
  have hnext : (ts.front (ts.from c)).1 = some (.mark m) := by rw [hfrom]; rfl
  refine Ends.called ((ends_peek hc).bind_ok ?_)
    (.of_restored rfl (Nat.le_succ _) (Tokens.from_next hfrom).1 hc.limited rfl)
  rw [if_pos hnext]
  exact (ends_advance hc hfrom).bind_ok (.pure true)

theorem ends_eat_of_ne {m : Mark} (hne : (ts.front (ts.from c)).1 ≠ some (.mark m)) :
    Ends ts (eat ts m) c (.ok false) c := by
  refine ends_still hc rfl ((ends_peek hc).bind_ok ?_)
  rw [if_neg hne]
  exact .pure false

theorem ends_expect {m : Mark} {position : Nat} {rest : List Token}
    (hfrom : ts.from c = ⟨.mark m, position⟩ :: rest) :
    Ends ts (expect ts m) c (.ok ()) c.next := by
  refine Ends.called ((ends_eat hc hfrom).bind_ok ?_)
    (.of_restored rfl (Nat.le_succ _) (Tokens.from_next hfrom).1 hc.limited rfl)
  rw [if_pos rfl]
  exact .pure ()

theorem ends_expect_of_ne {m : Mark} (hne : (ts.front (ts.from c)).1 ≠ some (.mark m)) :
    Ends ts (expect ts m) c (Expr.faultAt ts.stop (ts.from c) (.expected m)) c := by
  refine ends_still hc rfl ((ends_eat_of_ne hc hne).bind_ok ?_)
  rw [if_neg Bool.false_ne_true]
  exact ends_fail hc _

theorem ends_expectEnd : Ends ts (expectEnd ts) c (Expr.parseEnd ts.stop (ts.from c)) c := by
  refine ends_still hc rfl ((ends_peek hc).bind_ok ?_)
  rw [Expr.parseEnd, Tokens.isNone_front]
  split
  · exact .pure ()
  · exact ends_fail hc _

/-! ## Opening and closing levels -/

theorem ends_descend (hroom : c.depth < Expr.maxNesting) :
    Ends ts (descend ts) c (.ok ()) c.inner := by
  refine Ends.called (Ends.here.bind_ok ?_) ?_
  · rw [if_neg (not_le.mpr hroom)]
    exact .put
  · exact ⟨le_rfl, hc.inside, Nat.le_succ _, hroom, fun h => absurd h.symm Bool.false_ne_true,
      fun h => absurd h Bool.false_ne_true⟩

theorem ends_descend_of_full (hfull : Expr.maxNesting ≤ c.depth) :
    Ends ts (descend ts) c (Expr.faultAt ts.stop (ts.from c) (.tooDeep Expr.maxNesting)) c := by
  refine ends_still hc rfl (Ends.here.bind_ok ?_)
  rw [if_pos hfull]
  exact ends_fail hc _

/-- A level that is opened for a computation is closed behind it, whatever comes of it. -/
theorem ends_nested {x : InPlace α} {r : Except ParseError α}
    (hroom : c.depth < Expr.maxNesting) (hx : Ends ts x c.inner r c')
    (hforward : c.index ≤ c'.index) (hinside : c'.index ≤ ts.items.length)
    (hdepth : c'.depth = c.depth + 1) :
    Ends ts (nested ts x) c r { c' with depth := c.depth } := by
  refine Ends.called ((ends_descend hc hroom).bind_ok ?_)
    (.of_restored rfl hforward hinside hc.limited rfl)
  refine hx.attempt.bind_ok ?_
  have hascend : Ends ts ascend c' (.ok ()) { c' with depth := c.depth } := by
    refine Ends.here.bind_ok ?_
    rw [hdepth]
    exact .put
  exact hascend.bind_ok (.settle r)

theorem ends_nested_of_full {x : InPlace α} (hfull : Expr.maxNesting ≤ c.depth) :
    Ends ts (nested ts x) c (Expr.faultAt ts.stop (ts.from c) (.tooDeep Expr.maxNesting)) c := by
  refine ends_still hc rfl ?_
  exact (ends_descend_of_full hc hfull).bind_error

end

end InPlace

end Preprocessor
