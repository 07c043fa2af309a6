/-
What a line does, as equations.

A line that shapes no block does the same whatever blocks are open, as long as it counts, and
does nothing at all if it does not.  A line that shapes the blocks changes them as `Conditions`
says, and asks for the value of its condition only where `Conditions` does.
-/
import Preprocessor.Engine.Step
import Preprocessor.Proofs.LineKinds

namespace Preprocessor

variable {σ α β : Type}

/-- The scope with other blocks open. -/
def Scope.within (s : Scope) (c : Conditions) : Scope :=
  { s with conditions := c }

@[simp] theorem Scope.conditions_within (s : Scope) (c : Conditions) :
    (s.within c).conditions = c := rfl

@[simp] theorem Scope.outputOn_within (s : Scope) (c : Conditions) :
    (s.within c).outputOn = s.outputOn := rfl

@[simp] theorem Scope.within_conditions (s : Scope) : s.within s.conditions = s := rfl

theorem run_toLine {x : EngineM σ α} {e e' : Engine σ} {r : Except Fault α}
    (h : x.run e = (r, e')) (s : Scope) : x.toLine.run (s, e) = (r, (s, e')) := by
  change ((x.run e).1, (s, (x.run e).2)) = _
  rw [h]

/-! ## Markers -/

namespace Inline

variable {value : String → Hosted σ Fault String} {cs before rest expr after : List Char}

theorem substituteChars_of_unmarked (hopen : Text.cut openMark cs = none) :
    substituteChars value cs = pure cs := by
  rw [substituteChars]
  split
  · rfl
  · rename_i hopen'
    cases hopen.symm.trans hopen'

theorem substituteChars_of_unclosed (hopen : Text.cut openMark cs = some (before, rest))
    (hclose : Text.cut closeMark rest = none) :
    substituteChars value cs = throw .unterminatedMarker := by
  rw [substituteChars]
  split
  · rename_i hopen'
    cases hopen.symm.trans hopen'
  · rename_i hopen'
    cases hopen.symm.trans hopen'
    split
    · rfl
    · rename_i hclose'
      cases hclose.symm.trans hclose'

theorem substituteChars_of_closed (hopen : Text.cut openMark cs = some (before, rest))
    (hclose : Text.cut closeMark rest = some (expr, after)) :
    substituteChars value cs = do
      let inserted ← value (String.ofList (Text.trim expr))
      let more ← substituteChars value (dropDefault after)
      return before ++ inserted.toList ++ more := by
  rw [substituteChars]
  split
  · rename_i hopen'
    cases hopen.symm.trans hopen'
  · rename_i hopen'
    cases hopen.symm.trans hopen'
    split
    · rename_i hclose'
      cases hclose.symm.trans hclose'
    · rename_i hclose'
      cases hclose.symm.trans hclose'
      rfl

end Inline

/-! ## Computations that do not look at the open blocks -/

/-- A computation on a scope that neither reads nor changes the open blocks, and whose values
are all as `post` says. -/
def Detached (post : α → Prop) (x : LineM σ α) : Prop :=
  ∀ (c : Conditions) (s : Scope) (e : Engine σ),
    x.run (s.within c, e) =
        ((x.run (s, e)).1, (x.run (s, e)).2.1.within c, (x.run (s, e)).2.2) ∧
      ∀ a, (x.run (s, e)).1 = .ok a → post a

namespace Detached

variable {post : α → Prop}

theorem pure {a : α} (h : post a) : Detached post (pure a : LineM σ α) :=
  fun _ _ _ => ⟨rfl, fun _ ha => by cases ha; exact h⟩

theorem throw (fault : Fault) : Detached post (throw fault : LineM σ α) :=
  fun _ _ _ => ⟨rfl, fun _ ha => by cases ha⟩

theorem toLine (x : EngineM σ α) : Detached (fun _ => True) x.toLine :=
  fun _ _ _ => ⟨rfl, fun _ _ => trivial⟩

theorem emit (text : String) : Detached (· ≠ .exclude) (LineM.emit text : LineM σ Step) :=
  fun _ _ _ => ⟨rfl, fun _ ha => by cases ha; exact Step.noConfusion⟩

theorem changeScope {f : Scope → Scope} (hf : ∀ s c, f (s.within c) = (f s).within c) :
    Detached (fun _ => True) (LineM.changeScope f : LineM σ Unit) := by
  intro c s e
  refine ⟨?_, fun _ _ => trivial⟩
  change (Except.ok (), f (s.within c), e) = _
  rw [hf s c]
  rfl

theorem bind {x : LineM σ α} {f : α → LineM σ β} {post' : β → Prop} (hx : Detached post x)
    (hf : ∀ a, Detached post' (f a)) : Detached post' (x >>= f) := by
  intro c s e
  rcases hr : x.run (s, e) with ⟨r, s', e'⟩
  have hc : x.run (s.within c, e) = (r, s'.within c, e') := by
    rw [(hx c s e).1, hr]
  cases r with
  | error fault =>
      rw [run_bind_of_error hc, run_bind_of_error hr]
      exact ⟨rfl, fun _ ha => by cases ha⟩
  | ok a =>
      rw [run_bind_of_ok hc, run_bind_of_ok hr]
      exact hf a c s' e'

theorem plain (host : Host σ) (site : Site) {d : Directive}
    (hd : ∀ expr, d ≠ .excludeIf expr) :
    Detached (· ≠ .exclude) (LineM.plain host site d) := by
  have skip : Detached (· ≠ .exclude) (Pure.pure .skip : LineM σ Step) :=
    pure Step.noConfusion
  cases d with
  | excludeIf expr => exact absurd rfl (hd expr)
  | define name expr => exact bind (toLine _) fun _ => skip
  | undefine name => exact bind (toLine _) fun _ => skip
  | defineGlobal name expr => exact throw _
  | includeFile expr => exact bind (toLine _) fun _ => pure Step.noConfusion
  | action args => exact bind (toLine _) fun _ => skip
  | outname expr =>
      refine bind (toLine _) fun name => ?_
      dsimp only
      split
      · exact throw _
      · exact fun _ _ _ => ⟨rfl, fun _ ha => by cases ha; exact Step.noConfusion⟩
  | error expr => exact bind (toLine _) fun _ => throw _
  | warning expr => exact bind (toLine _) fun _ => bind (toLine _) fun _ => skip
  | echo expr => exact bind (toLine _) fun _ => bind (toLine _) fun _ => skip
  | outputOff => exact bind (changeScope fun _ _ => rfl) fun _ => skip
  | outputOn => exact bind (changeScope fun _ _ => rfl) fun _ => skip
  | commentNext => exact bind (changeScope fun _ _ => rfl) fun _ => skip
  | unknown text => exact throw _
  | _ => exact skip

end Detached

/-! ## Lines that shape no block -/

/-- Whether a line shapes no block: it is no directive that does, and if it cannot be read then
its keyword is none of theirs. -/
def LineKind.isOrdinary (content : String) : Bool :=
  match LineKind.classify content with
  | .ok (.directive d) => !d.isConditional
  | .ok _ => true
  | .error _ => LineKind.isPlainDirective content

/-- The open blocks after a line that shapes none: only an exclusion changes them. -/
def Conditions.after (c : Conditions) : Except Fault Step → Conditions
  | .ok .exclude => c.exclude
  | _ => c

/-- The outcome of a line that shapes no block, with other blocks open around it. -/
def Conditions.around (c : Conditions) (o : Except Fault Step × Scope × Engine σ) :
    Except Fault Step × Scope × Engine σ :=
  (o.1, o.2.1.within (c.after o.1), o.2.2)

variable (host : Host σ) (site : Site) {content : String}

theorem processLine_eq (content : String) (s : Scope) (e : Engine σ) :
    e.processLine host site content s =
      if !s.conditions.isActive && LineKind.isPlainDirective content then (.ok .skip, s, e)
      else
        match LineKind.classify content with
        | .error fault => (.error fault, s, e)
        | .ok (.directive d) =>
          if d.isConditional then (LineM.conditional host site d).run (s, e)
          else if s.conditions.isActive then (LineM.plain host site d).run (s, e)
          else (.ok .skip, s, e)
        | .ok .text =>
          if s.conditions.isActive && s.outputOn then
            ((EngineM.substituted host site content).toLine >>= LineM.emit).run (s, e)
          else (.ok .skip, s, e)
        | .ok (.toggle indent body raw) =>
          if s.conditions.isActive && s.outputOn then
            ((if raw then pure body else (EngineM.substituted host site body).toLine) >>=
              fun body => LineM.emit (indent ++ body)).run (s, e)
          else (.ok .skip, s, e) := by
  have hscope : (LineM.scope : LineM σ Scope).run (s, e) = (.ok s, (s, e)) := rfl
  unfold Engine.processLine LineM.line
  rw [run_bind_of_ok hscope]
  split
  · rfl
  · unfold LineM.lineInFull
    rw [run_bind_of_ok hscope]
    cases LineKind.classify content with
    | error fault => rfl
    | ok kind =>
        cases kind with
        | text => dsimp only; split <;> rfl
        | directive d => dsimp only; repeat' split <;> try rfl
        | toggle indent body raw =>
            dsimp only
            split
            · cases raw <;> rfl
            · rfl

theorem processLine_of_suppressed {s : Scope} {e : Engine σ}
    (hline : LineKind.isOrdinary content = true) (hs : s.conditions.isActive = false) :
    e.processLine host site content s = (.ok .skip, s, e) := by
  rw [processLine_eq]
  unfold LineKind.isOrdinary at hline
  cases hplain : LineKind.isPlainDirective content with
  | true => simp [hs]
  | false =>
      cases hkind : LineKind.classify content with
      | error fault =>
          -- a line that cannot be read is ordinary by its keyword alone
          rw [hkind] at hline
          simp [hplain] at hline
      | ok kind =>
          cases kind with
          | text => simp [hs]
          | toggle indent body raw => simp [hs]
          | directive d =>
              rw [hkind] at hline
              have hd : d.isConditional = false := by simpa using hline
              simp [hs, hd]

theorem run_excludeIf_within (expr : String) (c : Conditions) (s : Scope) (e : Engine σ) :
    (LineM.plain host site (.excludeIf expr)).run (s.within c, e) =
      c.around ((LineM.plain host site (.excludeIf expr)).run (s, e)) := by
  rcases hr : (EngineM.condition host site expr).run e with ⟨r, e'⟩
  have hout := run_toLine hr (s.within c)
  have hin := run_toLine hr s
  unfold LineM.plain
  dsimp only
  cases r with
  | error fault => rw [run_bind_of_error hout, run_bind_of_error hin]; rfl
  | ok b =>
      rw [run_bind_of_ok hout, run_bind_of_ok hin]
      cases b <;> rfl

theorem Conditions.after_of_ne {c : Conditions} {r : Except Fault Step} (h : r ≠ .ok .exclude) :
    c.after r = c := by
  unfold Conditions.after
  split
  · exact absurd rfl h
  · rfl

/-- A step that does not look at the open blocks and excludes nothing leaves them alone. -/
theorem Detached.run_within {x : LineM σ Step} (hx : Detached (· ≠ .exclude) x)
    (c : Conditions) (s : Scope) (e : Engine σ) :
    x.run (s.within c, e) = c.around (x.run (s, e)) := by
  obtain ⟨hrun, hpost⟩ := hx c s e
  have hr : (x.run (s, e)).1 ≠ .ok .exclude := fun h => hpost _ h rfl
  rw [hrun, Conditions.around, Conditions.after_of_ne hr]

theorem run_plain_within (d : Directive) (c : Conditions) (s : Scope) (e : Engine σ) :
    (LineM.plain host site d).run (s.within c, e) =
      c.around ((LineM.plain host site d).run (s, e)) := by
  -- the exclusion of the file is the one directive here that changes the conditions
  by_cases hd : ∃ expr, d = .excludeIf expr
  · obtain ⟨expr, rfl⟩ := hd
    exact run_excludeIf_within host site expr c s e
  · exact (Detached.plain host site fun expr h => hd ⟨expr, h⟩).run_within c s e

/-- A line that shapes no block does the same whatever blocks are open, if it counts. -/
theorem processLine_within (hline : LineKind.isOrdinary content = true) {c : Conditions}
    (hc : c.isActive = true) {s : Scope} (hs : s.conditions.isActive = true) (e : Engine σ) :
    e.processLine host site content (s.within c) =
      c.around (e.processLine host site content s) := by
  have skip : ((.ok .skip, s.within c, e) : Except Fault Step × Scope × Engine σ) =
      c.around (.ok .skip, s, e) := rfl
  rw [processLine_eq, processLine_eq]
  simp only [Scope.conditions_within, Scope.outputOn_within, hc, hs, Bool.not_true,
    Bool.false_and, Bool.true_and, Bool.false_eq_true, if_false, if_true]
  unfold LineKind.isOrdinary at hline
  cases hkind : LineKind.classify content with
  | error fault => rfl
  | ok kind =>
      rw [hkind] at hline
      cases kind with
      | directive d =>
          have hd : d.isConditional = false := by simpa using hline
          simp only [hd, Bool.false_eq_true, if_false]
          exact run_plain_within host site d c s e
      | text =>
          dsimp only
          split
          · exact (Detached.bind (.toLine _) .emit).run_within c s e
          · exact skip
      | toggle indent body raw =>
          dsimp only
          split
          · have hbody : Detached (fun _ => True)
                (if raw then pure body else (EngineM.substituted host site body).toLine) := by
              split
              · exact .pure trivial
              · exact .toLine _
            exact (hbody.bind fun _ => .emit _).run_within c s e
          · exact skip

/-! ## Lines that shape the blocks -/

/-- What decides the first branch of a block. -/
inductive Test where
  | holds (expr : String)
  | isDefined (name : String)
  | isNotDefined (name : String)

/-- The directive that opens a block. -/
def Test.directive : Test → Directive
  | holds expr => .ifTrue expr
  | isDefined name => .ifDefined name
  | isNotDefined name => .ifNotDefined name

/-- The truth value that decides the first branch. -/
def Test.value : Test → EngineM σ Bool
  | holds expr => EngineM.condition host site expr
  | isDefined name => do return (← get).env.isDefined name site
  | isNotDefined name => do return !(← get).env.isDefined name site

theorem processLine_of_conditional {d : Directive}
    (h : LineKind.classify content = .ok (.directive d)) (hd : d.isConditional = true)
    (s : Scope) (e : Engine σ) :
    e.processLine host site content s = (LineM.conditional host site d).run (s, e) := by
  rw [processLine_eq, LineKind.isPlainDirective_of_conditional h hd, h]
  simp [hd]

/-- What a line has done that settles the open blocks with the value of a condition. -/
def Scope.settle (s : Scope) (x : EngineM σ Bool) (e : Engine σ) :
    Conditions.Pending → Except Fault Step × Scope × Engine σ
  | .settled c => (.ok .skip, s.within c, e)
  | .asks next =>
    match x.run e with
    | (.ok b, e') => (.ok .skip, s.within (next b), e')
    | (.error fault, e') => (.error fault, s, e')

theorem run_settle (x : EngineM σ Bool) (pending : Conditions.Pending) (s : Scope)
    (e : Engine σ) :
    (do LineM.settle pending x.toLine; return .skip : LineM σ Step).run (s, e) =
      s.settle x e pending := by
  cases pending with
  | settled c => rfl
  | asks next =>
      rcases hx : x.run e with ⟨r, e'⟩
      have hline := run_toLine hx s
      unfold LineM.settle Scope.settle
      dsimp only
      rw [hx, bind_assoc]
      cases r with
      | error fault => rw [run_bind_of_error hline]
      | ok b => rw [run_bind_of_ok hline]; rfl

theorem processLine_of_opening (t : Test)
    (h : LineKind.classify content = .ok (.directive t.directive)) (s : Scope)
    (e : Engine σ) :
    e.processLine host site content s =
      s.settle (t.value host site) e (s.conditions.openBlock site.line) := by
  have hd : t.directive.isConditional = true := by cases t <;> rfl
  rw [processLine_of_conditional host site h hd, ← run_settle]
  cases t <;> rfl

theorem processLine_of_elseIf {expr : String}
    (h : LineKind.classify content = .ok (.directive (.elseIf expr))) (s : Scope)
    (e : Engine σ) :
    e.processLine host site content s =
      match s.conditions.elseIf with
      | .error fault => (.error fault, s, e)
      | .ok pending => s.settle (EngineM.condition host site expr) e pending := by
  have hrun : (LineM.conditional host site (.elseIf expr)).run (s, e) =
      (LineM.conditional.liftExcept s.conditions.elseIf >>= fun pending => do
        LineM.settle pending (EngineM.condition host site expr).toLine
        return .skip : LineM σ Step).run (s, e) := rfl
  rw [processLine_of_conditional host site h rfl, hrun]
  cases s.conditions.elseIf with
  | error fault => rfl
  | ok pending => exact run_settle (EngineM.condition host site expr) pending s e

theorem processLine_of_otherwise (h : LineKind.classify content = .ok (.directive .otherwise))
    (s : Scope) (e : Engine σ) :
    e.processLine host site content s =
      match s.conditions.otherwise with
      | .error fault => (.error fault, s, e)
      | .ok c => (.ok .skip, s.within c, e) := by
  have hrun : (LineM.conditional host site .otherwise).run (s, e) =
      (LineM.conditional.liftExcept s.conditions.otherwise >>= fun c => do
        LineM.setConditions c
        return .skip : LineM σ Step).run (s, e) := rfl
  rw [processLine_of_conditional host site h rfl, hrun]
  cases s.conditions.otherwise <;> rfl

theorem processLine_of_endIf (h : LineKind.classify content = .ok (.directive .endIf))
    (s : Scope) (e : Engine σ) :
    e.processLine host site content s =
      match s.conditions.close with
      | .error fault => (.error fault, s, e)
      | .ok c => (.ok .skip, s.within c, e) := by
  have hrun : (LineM.conditional host site .endIf).run (s, e) =
      (LineM.conditional.liftExcept s.conditions.close >>= fun c => do
        LineM.setConditions c
        return .skip : LineM σ Step).run (s, e) := rfl
  rw [processLine_of_conditional host site h rfl, hrun]
  cases s.conditions.close <;> rfl

end Preprocessor
