/-
The innermost block speaks for all of them.

Whether lines count is read off the innermost block, and what a block knows of the region around it
is what was true when it was opened.  That this is enough is a matter of history: the blocks around
a block do not change while it is open.  So beside the stack a history is kept, which says of every
open block how the stack stood when the block was opened and which of its branches counted, and each
operation is shown to keep the two in step, whatever its condition does.

The history is no part of what runs, and nothing is read from it.  That a condition is asked for is
stated without looking at how the operations are written: what comes of an operation depends on its
condition.
-/
import Preprocessor.Proofs.BlockMoves

namespace Preprocessor

variable {σ : Type}

namespace Conditions

/-! ## Operations -/

/-- An operation on the open blocks.  A condition may fail, and may change the engine. -/
inductive Operation (σ : Type) where
  | openBlock (line : Nat) (condition : EngineM σ Bool)
  | elseIf (condition : EngineM σ Bool)
  | otherwise
  | close
  | exclude

namespace Operation

/-- What an operation makes of the open blocks, as far as it is known without its condition. -/
def pending (c : Conditions) : Operation σ → Except Fault Pending
  | openBlock line _ => .ok (c.openBlock line)
  | elseIf _ => c.elseIf
  | otherwise => c.otherwise.map .settled
  | close => c.close.map .settled
  | exclude => .ok (.settled c.exclude)

/-- The condition of an operation; one that has none is never asked. -/
def condition : Operation σ → EngineM σ Bool
  | openBlock _ x => x
  | elseIf x => x
  | _ => pure false

def asking (x : EngineM σ Bool) : Operation σ → Operation σ
  | openBlock line _ => openBlock line x
  | elseIf _ => elseIf x
  | op => op

def perform (op : Operation σ) : LineM σ Step := do
  let pending ← LineM.conditional.liftExcept (op.pending (← LineM.scope).conditions)
  LineM.settle pending op.condition.toLine
  return .skip

theorem run_perform_of_error {op : Operation σ} {s : Scope} {fault : Fault}
    (h : op.pending s.conditions = .error fault) (e : Engine σ) :
    op.perform.run (s, e) = (.error fault, s, e) := by
  show (LineM.conditional.liftExcept (op.pending s.conditions) >>= fun pending => do
    LineM.settle pending op.condition.toLine
    return .skip : LineM σ Step).run (s, e) = _
  rw [h]
  rfl

theorem run_perform_of_ok {op : Operation σ} {s : Scope} {pending : Pending}
    (h : op.pending s.conditions = .ok pending) (e : Engine σ) :
    op.perform.run (s, e) = s.settle op.condition e pending := by
  rw [← run_settle]
  show (LineM.conditional.liftExcept (op.pending s.conditions) >>= fun pending => do
    LineM.settle pending op.condition.toLine
    return .skip : LineM σ Step).run (s, e) = _
  rw [h]
  rfl

/-- An operation that fails leaves the blocks as they were, and all else of the scope. -/
theorem scope_of_error {op : Operation σ} {s s' : Scope} {e e' : Engine σ} {fault : Fault}
    (h : op.perform.run (s, e) = (.error fault, s', e')) : s' = s := by
  cases hpending : op.pending s.conditions with
  | error fault' =>
      rw [run_perform_of_error hpending] at h
      cases h
      rfl
  | ok pending =>
      rw [run_perform_of_ok hpending] at h
      cases pending with
      | settled c => cases h
      | asks next =>
          simp only [Scope.settle] at h
          rcases hx : op.condition.run e with ⟨fault' | b, e₁⟩
          · rw [hx] at h
            cases h
            rfl
          · rw [hx] at h
            cases h

theorem exists_of_perform {op : Operation σ} {s s' : Scope} {e e' : Engine σ} {step : Step}
    (h : op.perform.run (s, e) = (.ok step, s', e')) :
    ∃ pending, op.pending s.conditions = .ok pending ∧ pending.Becomes s'.conditions := by
  cases hpending : op.pending s.conditions with
  | error fault =>
      rw [run_perform_of_error hpending] at h
      cases h
  | ok pending =>
      refine ⟨pending, rfl, ?_⟩
      rw [run_perform_of_ok hpending] at h
      cases pending with
      | settled c =>
          cases h
          exact .settled c
      | asks next =>
          simp only [Scope.settle] at h
          rcases hx : op.condition.run e with ⟨fault | b, e₁⟩
          · rw [hx] at h
            cases h
          · rw [hx] at h
            cases h
            exact .asks next b

/-! ### When a condition is asked for -/

/-- What comes of an operation depends on what its condition does. -/
def Consults (op : Operation σ) (s : Scope) (e : Engine σ) : Prop :=
  ∃ x y, (op.asking x).perform.run (s, e) ≠ (op.asking y).perform.run (s, e)

theorem pending_asking (op : Operation σ) (x : EngineM σ Bool) (c : Conditions) :
    (op.asking x).pending c = op.pending c := by
  cases op <;> rfl

theorem run_asking_throw {op : Operation σ} {s : Scope} {next : Bool → Conditions}
    (h : op.pending s.conditions = .ok (.asks next)) (e : Engine σ) (fault : Fault) :
    (op.asking (throw fault)).perform.run (s, e) = (.error fault, s, e) := by
  rw [run_perform_of_ok ((op.pending_asking _ _).trans h)]
  cases op with
  | openBlock line x => rfl
  | elseIf x => rfl
  | otherwise =>
      obtain ⟨c, -, hc⟩ := exists_of_map_eq_ok h
      cases hc
  | close =>
      obtain ⟨c, -, hc⟩ := exists_of_map_eq_ok h
      cases hc
  | exclude => cases h

/-- An operation depends on its condition exactly if the value of the condition is pending. -/
theorem consults_iff {op : Operation σ} {s : Scope} {e : Engine σ} :
    op.Consults s e ↔ ∃ next, op.pending s.conditions = .ok (.asks next) := by
  constructor
  · rintro ⟨x, y, hne⟩
    cases hpending : op.pending s.conditions with
    | error fault =>
        refine absurd ?_ hne
        rw [run_perform_of_error ((op.pending_asking x _).trans hpending),
          run_perform_of_error ((op.pending_asking y _).trans hpending)]
    | ok pending =>
        cases pending with
        | settled c =>
            refine absurd ?_ hne
            rw [run_perform_of_ok ((op.pending_asking x _).trans hpending),
              run_perform_of_ok ((op.pending_asking y _).trans hpending)]
            rfl
        | asks next => exact ⟨next, rfl⟩
  · rintro ⟨next, hpending⟩
    refine ⟨throw .elifWithoutIf, throw .elseWithoutIf, fun heq => ?_⟩
    rw [run_asking_throw hpending, run_asking_throw hpending] at heq
    cases heq

end Operation

/-! ## The history of the open blocks -/

/-- Whether the current branch of the innermost block counts. -/
def topActive (c : Conditions) : Bool :=
  c.blocks.head?.any Block.active

/-- The history of an open block: the open blocks when it was opened, and for each of its branches
so far, the first one first, whether it counted when it began. -/
structure Opened where
  outer : Conditions
  branches : List Bool

def Operation.note (before after : Conditions) (history : List Opened) :
    Operation σ → List Opened
  | openBlock _ _ => ⟨before, [after.topActive]⟩ :: history
  | elseIf _ | otherwise => history.modifyHead fun h =>
      { h with branches := h.branches ++ [after.topActive] }
  | close => history.tail
  | exclude => history

/-- A scope and an engine, with the histories of the open blocks, the innermost first. -/
structure Tracked (σ : Type) where
  scope : Scope
  engine : Engine σ
  history : List Opened

/-- Performs an operation and notes what has become of the blocks; one that fails is not noted. -/
def Operation.track (t : Tracked σ) (op : Operation σ) : Tracked σ :=
  match op.perform.run (t.scope, t.engine) with
  | (.ok _, s, e) => ⟨s, e, op.note t.scope.conditions s.conditions t.history⟩
  | (.error _, s, e) => ⟨s, e, t.history⟩

/-- Performs operations one after the other, on a scope without open blocks, whether they succeed
or not. -/
def performAll (s : Scope) (e : Engine σ) (ops : List (Operation σ)) : Tracked σ :=
  ops.foldl Operation.track ⟨s.within {}, e, []⟩

/-! ### What the blocks know of their histories -/

/-- What a block and its history have in common, with the blocks around it. -/
structure Recalls (b : Block) (around : List Block) (h : Opened) : Prop where
  around : h.outer.blocks = around
  outerActive : b.outerActive = h.outer.isActive
  active : h.branches.getLast? = some b.active
  suppressed : b.outerActive = false → ∀ branch ∈ h.branches, branch = false
  taken : b.outerActive = true → b.taken = h.branches.any id
  elseSeen : b.elseSeen = true → b.taken = true
  atMostOne : h.branches.count true ≤ 1

/-- Every open block and its history have that in common. -/
inductive Recall : List Block → List Opened → Prop
  | nil : Recall [] []
  | cons {b : Block} {around : List Block} {h : Opened} {history : List Opened} :
      Recalls b around h → Recall around history → Recall (b :: around) (h :: history)

theorem Recalls.outerActive_of_active {b : Block} {around : List Block} {h : Opened}
    (hb : Recalls b around h) (hactive : b.active = true) : b.outerActive = true := by
  cases houter : b.outerActive with
  | true => rfl
  | false =>
      have hlast := List.mem_of_getLast? hb.active
      rw [← hactive, hb.suppressed houter _ hlast]

theorem Recall.forall_active {blocks : List Block} {history : List Opened}
    (h : Recall blocks history) (hactive : blocks.head?.all Block.active = true) :
    ∀ b ∈ blocks, b.active = true := by
  induction h with
  | nil => exact List.forall_mem_nil _
  | @cons b around h history hb hrest ih =>
      have htop : b.active = true := by simpa using hactive
      refine List.forall_mem_cons.mpr ⟨htop, ih ?_⟩
      have houter := hb.outerActive_of_active htop
      rw [hb.outerActive, isActive, hb.around, Bool.and_eq_true] at houter
      exact houter.2

theorem Recall.isActive_iff {c : Conditions} {history : List Opened}
    (h : Recall c.blocks history) :
    c.isActive = true ↔ c.excluded = false ∧ ∀ b ∈ c.blocks, b.active = true := by
  rw [isActive, Bool.and_eq_true, Bool.not_eq_true']
  refine and_congr_right fun _ => ⟨h.forall_active, fun hall => ?_⟩
  cases hblocks : c.blocks with
  | nil => rfl
  | cons b around => exact hall b (hblocks ▸ List.mem_cons_self)

/-! ### One operation -/

theorem recalls_push (c : Conditions) (line : Nat) (selected : Bool) :
    Recalls ⟨c.isActive && selected, selected, c.isActive, false, line⟩ c.blocks
      ⟨c, [c.isActive && selected]⟩ where
  around := rfl
  outerActive := rfl
  active := rfl
  suppressed := by
    intro houter branch hbranch
    rw [List.mem_singleton.mp hbranch]
    show (c.isActive && selected) = false
    rw [show c.isActive = false from houter, Bool.false_and]
  taken := by
    intro houter
    show selected = [c.isActive && selected].any id
    rw [show c.isActive = true from houter]
    simp
  elseSeen := by
    intro helse
    cases helse
  atMostOne := List.count_le_length

/-- A further branch of a block counts only if the region around the block did and no branch before
it was selected. -/
theorem Recalls.next {b : Block} {around : List Block} {h : Opened} (hb : Recalls b around h)
    {active taken elseSeen : Bool}
    (hactive : active = true → b.outerActive = true ∧ b.taken = false)
    (htaken : b.outerActive = true → taken = (b.taken || active))
    (helse : elseSeen = true → taken = true) :
    Recalls { b with active := active, taken := taken, elseSeen := elseSeen } around
      { h with branches := h.branches ++ [active] } where
  around := hb.around
  outerActive := hb.outerActive
  active := List.getLast?_concat
  suppressed := by
    intro houter branch hbranch
    rcases List.mem_append.mp hbranch with hearlier | hlast
    · exact hb.suppressed houter branch hearlier
    · obtain rfl := List.mem_singleton.mp hlast
      cases hbranch : branch with
      | false => rfl
      | true => cases houter.symm.trans (hactive hbranch).1
  taken := by
    intro houter
    show taken = (h.branches ++ [active]).any id
    rw [htaken houter, hb.taken houter]
    simp
  elseSeen := helse
  atMostOne := by
    show (h.branches ++ [active]).count true ≤ 1
    rw [List.count_append]
    cases active with
    | false => exact hb.atMostOne
    | true =>
        obtain ⟨houter, hnone⟩ := hactive rfl
        rw [hb.taken houter] at hnone
        have hzero : h.branches.count true = 0 := by
          refine List.count_eq_zero.mpr fun hmem => ?_
          have hsome : h.branches.any id = true := List.any_eq_true.mpr ⟨true, hmem, rfl⟩
          cases hnone.symm.trans hsome
        rw [hzero]
        exact Nat.le_refl 1

/-- An operation that succeeds keeps the blocks and their histories in step. -/
theorem Recall.note {op : Operation σ} {c c' : Conditions} {pending : Pending}
    {history : List Opened} (h : Recall c.blocks history) (hpending : op.pending c = .ok pending)
    (hbecomes : pending.Becomes c') : Recall c'.blocks (op.note c c' history) := by
  rcases c with ⟨blocks, excluded⟩
  cases op with
  | openBlock line x =>
      cases hpending
      cases moves_of_openBlock hbecomes with
      | opening selected => exact .cons (recalls_push _ line selected) h
  | exclude =>
      cases hpending
      cases hbecomes
      exact h
  | close =>
      obtain ⟨c₁, hclose, rfl⟩ := exists_of_map_eq_ok hpending
      cases hbecomes
      cases h with
      | nil => cases hclose
      | cons hb hrest =>
          cases hclose
          exact hrest
  | otherwise =>
      obtain ⟨c₁, hlast, rfl⟩ := exists_of_map_eq_ok hpending
      cases hbecomes
      cases h with
      | nil => cases hlast
      | @cons b around h history hb hrest =>
          simp only [Conditions.otherwise] at hlast
          split at hlast
          · cases hlast
          · cases hlast
            refine .cons (hb.next ?_ ?_ fun _ => rfl) hrest
            · intro hactive
              simpa using hactive
            · intro houter
              rw [houter]
              cases b.taken <;> rfl
  | elseIf x =>
      cases h with
      | nil => cases hpending
      | @cons b around h history hb hrest =>
          simp only [Operation.pending, Conditions.elseIf] at hpending
          split at hpending
          · cases hpending
          · split at hpending
            · cases hpending
              cases hbecomes
              refine .cons (hb.next ?_ ?_ hb.elseSeen) hrest
              · intro hactive
                cases hactive
              · intro _
                rw [Bool.or_false]
            · rename_i helse hopen
              cases hpending
              cases hbecomes with
              | asks next selected =>
                  simp only [Bool.or_eq_true, Bool.not_eq_true', not_or, Bool.not_eq_false,
                    Bool.not_eq_true] at hopen
                  refine .cons (hb.next ?_ ?_ fun hseen => absurd hseen helse) hrest
                  · intro _
                    exact hopen
                  · intro _
                    rw [hopen.2, Bool.false_or]

/-- When a condition may be asked for: all blocks around the block counted when it was opened, the
file was not excluded then, and no branch of the block has counted so far. -/
def Operation.MayAsk (c : Conditions) (history : List Opened) : Operation σ → Prop
  | openBlock _ _ => c.excluded = false ∧ ∀ b ∈ c.blocks, b.active = true
  | elseIf _ => ∃ h, history.head? = some h ∧ h.outer.excluded = false ∧
      (∀ b ∈ h.outer.blocks, b.active = true) ∧ ∀ branch ∈ h.branches, branch = false
  | _ => False

theorem Recalls.taken_eq_false_iff {b : Block} {around : List Block} {h : Opened}
    (hb : Recalls b around h) (houter : b.outerActive = true) :
    b.taken = false ↔ ∀ branch ∈ h.branches, branch = false := by
  rw [hb.taken houter, List.any_eq_false]
  simp

theorem Recall.elseIf_asks_iff {c : Conditions} {history : List Opened}
    (h : Recall c.blocks history) (x : EngineM σ Bool) :
    (∃ next, c.elseIf = .ok (.asks next)) ↔ (Operation.elseIf x).MayAsk c history := by
  rcases c with ⟨blocks, excluded⟩
  cases h with
  | nil =>
      constructor
      · rintro ⟨next, hnext⟩
        cases hnext
      · rintro ⟨h, hhead, -⟩
        cases hhead
  | @cons b around h history hb hrest =>
      have hregion : b.outerActive = true ↔
          h.outer.excluded = false ∧ ∀ b ∈ h.outer.blocks, b.active = true := by
        rw [hb.outerActive]
        exact Recall.isActive_iff (hb.around ▸ hrest)
      constructor
      · rintro ⟨next, hnext⟩
        simp only [Conditions.elseIf] at hnext
        split at hnext
        · cases hnext
        · split at hnext
          · cases hnext
          · rename_i hopen
            simp only [Bool.or_eq_true, Bool.not_eq_true', not_or, Bool.not_eq_false,
              Bool.not_eq_true] at hopen
            obtain ⟨hexcluded, hall⟩ := hregion.mp hopen.1
            exact ⟨h, rfl, hexcluded, hall, (hb.taken_eq_false_iff hopen.1).mp hopen.2⟩
      · rintro ⟨_, hhead, hexcluded, hall, hnone⟩
        obtain rfl := Option.some.inj hhead
        have houter := hregion.mpr ⟨hexcluded, hall⟩
        have htaken := (hb.taken_eq_false_iff houter).mpr hnone
        -- the last branch is selected if no other was, so it has not begun
        have helse : b.elseSeen = false := by
          cases hseen : b.elseSeen with
          | false => rfl
          | true => cases htaken.symm.trans (hb.elseSeen hseen)
        simp [Conditions.elseIf, helse, houter, htaken]

theorem Recall.asks_iff {op : Operation σ} {c : Conditions} {history : List Opened}
    (h : Recall c.blocks history) :
    (∃ next, op.pending c = .ok (.asks next)) ↔ op.MayAsk c history := by
  cases op with
  | openBlock line x =>
      show (∃ next, Except.ok (c.openBlock line) = Except.ok (.asks next)) ↔
        c.excluded = false ∧ ∀ b ∈ c.blocks, b.active = true
      rw [← h.isActive_iff, Conditions.openBlock]
      cases c.isActive <;> simp
  | elseIf x => exact h.elseIf_asks_iff x
  | otherwise =>
      refine ⟨?_, False.elim⟩
      rintro ⟨next, hnext⟩
      obtain ⟨c₁, -, hc₁⟩ := exists_of_map_eq_ok hnext
      cases hc₁
  | close =>
      refine ⟨?_, False.elim⟩
      rintro ⟨next, hnext⟩
      obtain ⟨c₁, -, hc₁⟩ := exists_of_map_eq_ok hnext
      cases hc₁
  | exclude =>
      refine ⟨?_, False.elim⟩
      rintro ⟨next, hnext⟩
      cases hnext

/-! ## Any number of operations -/

theorem excluded_of_moves {c c' : Conditions} {line : Nat} {part : Part}
    (h : c.Moves line (some part) c') : c'.excluded = c.excluded := by
  cases h <;> rfl

theorem excluded_of_pending {op : Operation σ} {c c' : Conditions} {pending : Pending}
    (hpending : op.pending c = .ok pending) (hbecomes : pending.Becomes c') :
    c'.excluded = true ↔ c.excluded = true ∨ Operation.exclude = op := by
  cases op with
  | openBlock line x =>
      cases hpending
      simp [excluded_of_moves (moves_of_openBlock hbecomes)]
  | elseIf x =>
      have hmoves : c.Moves 0 (some .further) c' := moves_of_elseIf hpending hbecomes
      simp [excluded_of_moves hmoves]
  | otherwise =>
      obtain ⟨c₁, hlast, rfl⟩ := exists_of_map_eq_ok hpending
      cases hbecomes
      have hmoves : c.Moves 0 (some .last) c' := moves_of_otherwise hlast
      simp [excluded_of_moves hmoves]
  | close =>
      obtain ⟨c₁, hclose, rfl⟩ := exists_of_map_eq_ok hpending
      cases hbecomes
      have hmoves : c.Moves 0 (some .closing) c' := moves_of_close hclose
      simp [excluded_of_moves hmoves]
  | exclude =>
      cases hpending
      cases hbecomes
      simp [exclude]

/-- What holds after operations: the blocks and their histories are in step, and the file is
excluded if one of the operations excluded it. -/
structure Reaches (done : List (Operation σ)) (t : Tracked σ) : Prop where
  recalled : Recall t.scope.conditions.blocks t.history
  excluded : t.scope.conditions.excluded = true ↔ Operation.exclude ∈ done

theorem Reaches.track {done : List (Operation σ)} {t : Tracked σ} (h : Reaches done t)
    (op : Operation σ) : Reaches (done ++ [op]) (op.track t) := by
  rcases hrun : op.perform.run (t.scope, t.engine) with ⟨fault | step, s', e'⟩
  · have htrack : op.track t = ⟨s', e', t.history⟩ := by simp only [Operation.track, hrun]
    obtain rfl := Operation.scope_of_error hrun
    have hne : Operation.exclude ≠ op := by
      rintro rfl
      rw [Operation.run_perform_of_ok rfl] at hrun
      cases hrun
    rw [htrack]
    exact ⟨h.recalled, by simp [h.excluded, hne]⟩
  · have htrack : op.track t =
        ⟨s', e', op.note t.scope.conditions s'.conditions t.history⟩ := by
      simp only [Operation.track, hrun]
    obtain ⟨pending, hpending, hbecomes⟩ := Operation.exists_of_perform hrun
    rw [htrack]
    refine ⟨h.recalled.note hpending hbecomes, ?_⟩
    show s'.conditions.excluded = true ↔ _
    rw [excluded_of_pending hpending hbecomes, h.excluded]
    simp

theorem Reaches.trackAll {done : List (Operation σ)} {t : Tracked σ} (h : Reaches done t)
    (ops : List (Operation σ)) : Reaches (done ++ ops) (ops.foldl Operation.track t) := by
  induction ops generalizing done t with
  | nil =>
      rw [List.append_nil]
      exact h
  | cons op ops ih =>
      rw [List.append_cons]
      exact ih (h.track op)

theorem reaches_performAll (s : Scope) (e : Engine σ) (ops : List (Operation σ)) :
    Reaches ops (performAll s e ops) := by
  have hstart : Reaches [] (⟨s.within {}, e, []⟩ : Tracked σ) := ⟨.nil, by simp⟩
  exact hstart.trackAll ops

/-- The last branch of a history is the current one of its block, and at most one counted. -/
theorem Recall.branches {blocks : List Block} {history : List Opened}
    (h : Recall blocks history) :
    history.map (·.branches.getLast?) = blocks.map (some ·.active) ∧
      ∀ h ∈ history, h.branches.count true ≤ 1 := by
  induction h with
  | nil => exact ⟨rfl, List.forall_mem_nil _⟩
  | cons hb _ ih =>
      refine ⟨?_, List.forall_mem_cons.mpr ⟨hb.atMostOne, ih.2⟩⟩
      rw [List.map_cons, List.map_cons, hb.active, ih.1]

/-- After any operations on a file without open blocks, be they followed or refused: lines count
exactly if the file was never excluded and every open block counts; of each open block at most one
branch has counted; the next operation depends on its condition exactly if, when its block was
opened, all blocks around it counted and the file was not excluded, and no branch of the block has
counted since; and if the next operation fails then the open blocks stay. -/
theorem performAll_innermost (s : Scope) (e : Engine σ) (ops : List (Operation σ)) :
    let t := performAll s e ops
    (t.scope.conditions.isActive = true ↔
      Operation.exclude ∉ ops ∧ ∀ b ∈ t.scope.conditions.blocks, b.active = true) ∧
    (t.history.map (·.branches.getLast?) = t.scope.conditions.blocks.map (some ·.active) ∧
      ∀ h ∈ t.history, h.branches.count true ≤ 1) ∧
    (∀ op : Operation σ,
      op.Consults t.scope t.engine ↔ op.MayAsk t.scope.conditions t.history) ∧
    (∀ (op : Operation σ) (fault : Fault) (s' : Scope) (e' : Engine σ),
      op.perform.run (t.scope, t.engine) = (.error fault, s', e') →
        s'.conditions = t.scope.conditions) := by
  intro t
  have h : Reaches ops t := reaches_performAll s e ops
  refine ⟨?_, h.recalled.branches, ?_, ?_⟩
  · rw [h.recalled.isActive_iff, ← h.excluded, Bool.not_eq_true]
  · intro op
    rw [Operation.consults_iff, h.recalled.asks_iff]
  · intro op fault s' e' hrun
    rw [Operation.scope_of_error hrun]

end Conditions

end Preprocessor
