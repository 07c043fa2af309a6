/-
How a line moves the open blocks.

A line that is followed opens a block, goes on to another branch of the innermost one, closes it
or leaves the blocks alone, and which of these it does can be read off the line.  The values of
conditions only decide which branches count.
-/
import Preprocessor.Proofs.LineSteps

namespace Preprocessor

variable {σ : Type}

/-- What a conditional directive does: it opens a block, begins a further branch or the last one,
or closes the block. -/
inductive Part where
  | opening
  | further
  | last
  | closing
deriving DecidableEq

def Directive.part? : Directive → Option Part
  | ifTrue _ | ifDefined _ | ifNotDefined _ => some .opening
  | elseIf _ => some .further
  | otherwise => some .last
  | endIf => some .closing
  | _ => none

/-- What a line does to the blocks, if it shapes them. -/
def LineKind.part? (content : String) : Option Part :=
  match LineKind.classify content with
  | .ok (.directive d) => d.part?
  | _ => none

namespace Conditions

/-- What is pending can become these blocks: they are settled, or they are what some value of the
condition makes of them. -/
inductive Pending.Becomes : Pending → Conditions → Prop
  | settled (c : Conditions) : Becomes (.settled c) c
  | asks (next : Bool → Conditions) (b : Bool) : Becomes (.asks next) (next b)

/-- `Moves line part c c'`: the open blocks `c` become `c'` at a line that plays a part in them or
none. -/
inductive Moves (line : Nat) : Option Part → Conditions → Conditions → Prop
  | stay {c : Conditions} : Moves line none c c
  | exclude {c : Conditions} : Moves line none c c.exclude
  | opening {c : Conditions} (selected : Bool) :
      Moves line (some .opening) c (c.push line selected)
  | further {top : Block} {rest : List Block} {excluded : Bool} (active taken : Bool) :
      top.elseSeen = false →
      Moves line (some .further) ⟨top :: rest, excluded⟩
        ⟨{ top with active := active, taken := taken } :: rest, excluded⟩
  | last {top : Block} {rest : List Block} {excluded : Bool} (active : Bool) :
      top.elseSeen = false →
      Moves line (some .last) ⟨top :: rest, excluded⟩
        ⟨{ top with active := active, taken := true, elseSeen := true } :: rest, excluded⟩
  | closing {top : Block} {rest : List Block} {excluded : Bool} :
      Moves line (some .closing) ⟨top :: rest, excluded⟩ ⟨rest, excluded⟩

/-- `Turns line part c c'`: at a line that plays a part in the blocks or none, the operation of
that part makes `c'` of the open blocks `c`. -/
inductive Turns (line : Nat) : Option Part → Conditions → Conditions → Prop
  | stay {c : Conditions} : Turns line none c c
  | exclude {c : Conditions} : c.isActive = true → Turns line none c c.exclude
  | opening {c c' : Conditions} :
      (c.openBlock line).Becomes c' → Turns line (some .opening) c c'
  | further {c c' : Conditions} {pending : Pending} :
      c.elseIf = .ok pending → pending.Becomes c' → Turns line (some .further) c c'
  | last {c c' : Conditions} : c.otherwise = .ok c' → Turns line (some .last) c c'
  | closing {c c' : Conditions} : c.close = .ok c' → Turns line (some .closing) c c'

variable {c c' : Conditions} {line : Nat} {pending : Pending}

theorem moves_of_openBlock (h : (c.openBlock line).Becomes c') :
    c.Moves line (some .opening) c' := by
  unfold openBlock at h
  split at h
  · cases h with
    | asks next b => exact .opening b
  · cases h with
    | settled => exact .opening false

theorem moves_of_elseIf (hpending : c.elseIf = .ok pending) (h : pending.Becomes c') :
    c.Moves line (some .further) c' := by
  rcases c with ⟨blocks, excluded⟩
  cases blocks with
  | nil => cases hpending
  | cons top rest =>
      simp only [elseIf] at hpending
      split at hpending
      · cases hpending
      · rename_i helse
        rw [Bool.not_eq_true] at helse
        split at hpending
        · cases hpending
          cases h with
          | settled => exact .further false top.taken helse
        · cases hpending
          cases h with
          | asks next b => exact .further b b helse

theorem moves_of_otherwise (h : c.otherwise = .ok c') : c.Moves line (some .last) c' := by
  rcases c with ⟨blocks, excluded⟩
  cases blocks with
  | nil => cases h
  | cons top rest =>
      simp only [otherwise] at h
      split at h
      · cases h
      · rename_i helse
        rw [Bool.not_eq_true] at helse
        cases h
        exact .last _ helse

theorem moves_of_close (h : c.close = .ok c') : c.Moves line (some .closing) c' := by
  rcases c with ⟨blocks, excluded⟩
  cases blocks with
  | nil => cases h
  | cons top rest =>
      cases h
      exact .closing

theorem Turns.moves {part : Option Part} (h : c.Turns line part c') : c.Moves line part c' := by
  cases h with
  | stay => exact .stay
  | exclude hactive => exact .exclude
  | opening hbecomes => exact moves_of_openBlock hbecomes
  | further hpending hbecomes => exact moves_of_elseIf hpending hbecomes
  | last hlast => exact moves_of_otherwise hlast
  | closing hclose => exact moves_of_close hclose

end Conditions

section

variable {host : Host σ} {site : Site} {content : String} {s s' : Scope} {e e' : Engine σ}
  {r : Except Fault Step} {step : Step}

theorem conditions_of_ordinary (hline : LineKind.isOrdinary content = true)
    (h : e.processLine host site content s = (r, s', e')) :
    s'.conditions = s.conditions.after r := by
  cases hactive : s.conditions.isActive with
  | false =>
      rw [processLine_of_suppressed host site hline hactive] at h
      cases h
      rfl
  | true =>
      -- the blocks around the line are those it leaves
      have haround := processLine_within host site hline hactive hactive e
      rw [Scope.within_conditions, h] at haround
      exact congrArg (fun o => o.2.1.conditions) haround

theorem becomes_of_settle {x : EngineM σ Bool} {pending : Conditions.Pending}
    (h : s.settle x e pending = (.ok step, s', e')) : pending.Becomes s'.conditions := by
  cases pending with
  | settled c =>
      cases h
      exact .settled c
  | asks next =>
      unfold Scope.settle at h
      dsimp only at h
      split at h
      · cases h
        exact .asks next _
      · cases h

theorem isActive_of_exclude (hline : LineKind.isOrdinary content = true)
    (h : e.processLine host site content s = (.ok .exclude, s', e')) :
    s.conditions.isActive = true := by
  cases hactive : s.conditions.isActive with
  | true => rfl
  | false =>
      rw [processLine_of_suppressed host site hline hactive] at h
      cases h

theorem turns_of_ordinary (hline : LineKind.isOrdinary content = true)
    (h : e.processLine host site content s = (.ok step, s', e')) :
    s.conditions.Turns site.line none s'.conditions := by
  rw [conditions_of_ordinary hline h]
  cases step with
  | exclude => exact .exclude (isActive_of_exclude hline h)
  | _ => exact .stay

theorem turns_of_opening (t : Test)
    (hkind : LineKind.classify content = .ok (.directive t.directive))
    (h : e.processLine host site content s = (.ok step, s', e')) :
    s.conditions.Turns site.line (some .opening) s'.conditions := by
  rw [processLine_of_opening host site t hkind] at h
  exact .opening (becomes_of_settle h)

theorem turns_of_processLine (h : e.processLine host site content s = (.ok step, s', e')) :
    s.conditions.Turns site.line (LineKind.part? content) s'.conditions := by
  unfold LineKind.part?
  cases hkind : LineKind.classify content with
  | error fault =>
      -- a line that cannot be read is followed only if its keyword is no matter of the blocks
      cases hplain : LineKind.isPlainDirective content with
      | true => exact turns_of_ordinary (by rw [LineKind.isOrdinary, hkind]; exact hplain) h
      | false =>
          rw [processLine_eq, hkind, hplain, Bool.and_false] at h
          cases h
  | ok kind =>
      cases kind with
      | text => exact turns_of_ordinary (by rw [LineKind.isOrdinary, hkind]) h
      | toggle indent body raw => exact turns_of_ordinary (by rw [LineKind.isOrdinary, hkind]) h
      | directive d =>
          cases d with
          | ifTrue expr => exact turns_of_opening (.holds expr) hkind h
          | ifDefined name => exact turns_of_opening (.isDefined name) hkind h
          | ifNotDefined name => exact turns_of_opening (.isNotDefined name) hkind h
          | elseIf expr =>
              rw [processLine_of_elseIf host site hkind] at h
              split at h
              · cases h
              · rename_i pending hpending
                exact .further hpending (becomes_of_settle h)
          | otherwise =>
              rw [processLine_of_otherwise host site hkind] at h
              split at h
              · cases h
              · rename_i c hc
                cases h
                exact .last hc
          | endIf =>
              rw [processLine_of_endIf host site hkind] at h
              split at h
              · cases h
              · rename_i c hc
                cases h
                exact .closing hc
          | _ => exact turns_of_ordinary (by rw [LineKind.isOrdinary, hkind]; rfl) h

theorem moves_of_processLine (h : e.processLine host site content s = (.ok step, s', e')) :
    s.conditions.Moves site.line (LineKind.part? content) s'.conditions :=
  (turns_of_processLine h).moves

end

end Preprocessor
