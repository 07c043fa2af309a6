/-
A line that fails has changed nothing.

Whatever a line works out, it works out first: expressions are evaluated, markers replaced and
arguments collected before anything is put anywhere.  Of that only the host can notice something.
What a line then changes, it changes in one go that cannot fail any more.  So a failure finds the
scope, the variables, the name of the output and the log as they were.
-/
import Preprocessor.Proofs.Suppression

namespace Preprocessor

variable {σ τ κ α β : Type}

/-! ## Computations that fail before they change anything -/

/-- If the computation fails, it has kept what `kept` says of the state. -/
def Atomic (kept : τ → κ) (x : ExceptT Fault (StateM τ) α) : Prop :=
  ∀ s fault s', x.run s = (.error fault, s') → kept s' = kept s

section

variable {kept : τ → κ} {x : ExceptT Fault (StateM τ) α} {f : α → ExceptT Fault (StateM τ) β}

theorem Quiet.atomic (hx : Quiet kept x) : Atomic kept x :=
  fun s fault s' hrun => hx s (.error fault) s' hrun

/-- What comes first is quiet, and what follows fails before it changes anything. -/
theorem Quiet.bindAtomic (hx : Quiet kept x) (hf : ∀ a, Atomic kept (f a)) :
    Atomic kept (x >>= f) := by
  intro s fault s' hrun
  rcases hfirst : x.run s with ⟨r₁, s₁⟩
  cases r₁ with
  | error fault₁ =>
      rw [run_bind_of_error hfirst] at hrun
      cases hrun
      exact hx s _ _ hfirst
  | ok a =>
      rw [run_bind_of_ok hfirst] at hrun
      exact (hf a s₁ fault s' hrun).trans (hx s _ s₁ hfirst)

/-- After the change nothing is done that could fail. -/
theorem Atomic.thenPure (hx : Atomic kept x) (g : α → β) :
    Atomic kept (x >>= fun a => Pure.pure (g a)) := by
  intro s fault s' hrun
  rcases hfirst : x.run s with ⟨r₁, s₁⟩
  cases r₁ with
  | error fault₁ =>
      rw [run_bind_of_error hfirst] at hrun
      cases hrun
      exact hx s fault s' hfirst
  | ok a =>
      rw [run_bind_of_ok hfirst] at hrun
      cases hrun

theorem Atomic.modify (g : τ → τ) :
    Atomic kept (modify g : ExceptT Fault (StateM τ) PUnit) := by
  intro s fault s' hrun
  cases hrun

end

/-! ## Engines -/

/-- An engine apart from the state of its host. -/
def Engine.apart (e : Engine σ) : Environment × Option String × Log :=
  (e.env, e.outname, e.log)

namespace EngineM

variable (host : Host σ) (site : Site)

theorem quiet_ofHosted (x : Environment → Hosted σ Fault α) :
    Quiet Engine.apart (ofHosted x) := by
  intro e r e' hrun
  cases hrun
  rfl

theorem quiet_value (s : String) : Quiet Engine.apart (value host site s) :=
  quiet_ofHosted _

theorem quiet_substituted (s : String) : Quiet Engine.apart (substituted host site s) :=
  quiet_ofHosted _

theorem quiet_string (keyword s : String) : Quiet Engine.apart (string host site keyword s) := by
  refine (quiet_value host site s).bind fun v => ?_
  cases v with
  | str text => exact .pure text
  | _ => exact .throw _

theorem quiet_condition (s : String) : Quiet Engine.apart (condition host site s) := by
  refine (quiet_value host site s).bind fun v => ?_
  cases v with
  | bool b => exact .pure b
  | _ => exact .throw _

theorem quiet_action (args : String) : Quiet Engine.apart (action host site args) := by
  unfold action
  cases Expr.parseList args with
  | error err => exact .throw _
  | ok exprs =>
      refine (quiet_ofHosted _).bind fun values => ?_
      refine (quiet_ofHosted _).bind fun taken => ?_
      cases taken with
      | false => exact .throw _
      | true =>
          refine (quiet_ofHosted _).bind fun accepted => ?_
          cases accepted with
          | false => exact .throw _
          | true => exact .pure ()

theorem atomic_change (f : Environment → Except EvalError Environment) :
    Atomic Engine.apart (change f : EngineM σ Unit) := by
  refine Quiet.get.bindAtomic fun e => ?_
  cases f e.env with
  | ok env => exact .modify _
  | error err => exact (Quiet.throw _).atomic

theorem atomic_define (name : String) (expr : Option String) :
    Atomic Engine.apart (define host site name expr) := by
  cases expr with
  | some s => exact (quiet_value host site s).bindAtomic fun _ => atomic_change _
  | none => exact (Quiet.pure _).bindAtomic fun _ => atomic_change _

end EngineM

/-! ## Lines -/

/-- The scope, and the engine apart from the state of its host. -/
def LineM.apart (p : Scope × Engine σ) : Scope × Environment × Option String × Log :=
  (p.1, p.2.apart)

section

variable {x : EngineM σ α}

theorem Quiet.toLine (hx : Quiet Engine.apart x) : Quiet LineM.apart x.toLine := by
  rintro ⟨s, e⟩ r p' hrun
  cases hrun
  exact congrArg (Prod.mk s) (hx e _ _ rfl)

theorem Atomic.toLine (hx : Atomic Engine.apart x) : Atomic LineM.apart x.toLine := by
  rintro ⟨s, e⟩ fault p' hrun
  rcases hengine : x.run e with ⟨r, e'⟩
  rw [run_toLine hengine s] at hrun
  cases hrun
  exact congrArg (Prod.mk s) (hx e fault e' hengine)

end

namespace LineM

variable (host : Host σ) (site : Site)

theorem quiet_isDefined (name : String) : Quiet apart (isDefined site name : LineM σ Bool) :=
  Quiet.get.bind fun _ => .pure _

theorem atomic_emit (text : String) : Atomic apart (emit text : LineM σ Step) := by
  intro p fault p' hrun
  cases hrun

theorem atomic_settle (pending : Conditions.Pending) {x : LineM σ Bool}
    (hx : Quiet apart x) : Atomic apart (settle pending x) := by
  cases pending with
  | settled c => exact .modify _
  | asks next => exact hx.bindAtomic fun _ => .modify _

theorem quiet_liftExcept (r : Except Fault α) :
    Quiet apart (conditional.liftExcept r : LineM σ α) := by
  intro p r' p' hrun
  cases hrun
  rfl

theorem atomic_conditional (d : Directive) : Atomic apart (conditional host site d) := by
  have hscope : Quiet apart (scope : LineM σ Scope) :=
    Quiet.get.bind fun _ => .pure _
  have hcondition (expr : String) : Quiet apart (EngineM.condition host site expr).toLine :=
    (EngineM.quiet_condition host site expr).toLine
  refine hscope.bindAtomic fun s => ?_
  cases d with
  | ifTrue expr => exact (atomic_settle _ (hcondition expr)).thenPure _
  | ifDefined name => exact (atomic_settle _ (quiet_isDefined site name)).thenPure _
  | ifNotDefined name =>
      have hnot : Quiet apart (not <$> isDefined site name : LineM σ Bool) :=
        (quiet_isDefined site name).bind fun _ => .pure _
      exact (atomic_settle _ hnot).thenPure _
  | elseIf expr =>
      exact (quiet_liftExcept s.conditions.elseIf).bindAtomic fun pending =>
        (atomic_settle pending (hcondition expr)).thenPure _
  | otherwise =>
      exact (quiet_liftExcept s.conditions.otherwise).bindAtomic fun _ =>
        (Atomic.modify _).thenPure _
  | endIf =>
      exact (quiet_liftExcept s.conditions.close).bindAtomic fun _ =>
        (Atomic.modify _).thenPure _
  | _ => exact (Quiet.pure _).atomic

theorem atomic_plain (d : Directive) : Atomic apart (plain host site d) := by
  have hvalue (expr : String) : Quiet apart (EngineM.value host site expr).toLine :=
    (EngineM.quiet_value host site expr).toLine
  have hstring (keyword expr : String) :
      Quiet apart (EngineM.string host site keyword expr).toLine :=
    (EngineM.quiet_string host site keyword expr).toLine
  have hrecord (level : Level) (message : String) :
      Atomic apart (EngineM.record level message : EngineM σ Unit).toLine :=
    Atomic.toLine (.modify _)
  cases d with
  | excludeIf expr =>
      refine (EngineM.quiet_condition host site expr).toLine.bindAtomic fun excludes => ?_
      cases excludes with
      | true => exact (Atomic.modify _).thenPure _
      | false => exact (Quiet.pure _).atomic
  | define name expr => exact (EngineM.atomic_define host site name expr).toLine.thenPure _
  | undefine name => exact (EngineM.atomic_change _).toLine.thenPure _
  | defineGlobal name expr => exact (Quiet.throw _).atomic
  | includeFile expr =>
      exact (hstring _ expr).bindAtomic fun _ => (Quiet.pure _).atomic
  | action args => exact (EngineM.quiet_action host site args).toLine.atomic.thenPure _
  | outname expr =>
      -- a blank name is refused before it is kept
      refine (hstring _ expr).bindAtomic fun name => ?_
      dsimp only
      split
      · exact (Quiet.throw _).atomic
      · exact (Atomic.modify _).thenPure _
  | error expr =>
      exact (hvalue expr).bindAtomic fun _ => (Quiet.throw _).atomic
  | warning expr => exact (hvalue expr).bindAtomic fun _ => (hrecord _ _).thenPure _
  | echo expr => exact (hvalue expr).bindAtomic fun _ => (hrecord _ _).thenPure _
  | outputOff => exact (Atomic.modify _).thenPure _
  | outputOn => exact (Atomic.modify _).thenPure _
  | commentNext => exact (Atomic.modify _).thenPure _
  | unknown text => exact (Quiet.throw _).atomic
  | _ => exact (Quiet.pure _).atomic

theorem atomic_line (content : String) : Atomic apart (line host site content) := by
  have hskip : Atomic apart (Pure.pure .skip : LineM σ Step) := (Quiet.pure _).atomic
  have hsubstituted (s : String) : Quiet apart (EngineM.substituted host site s).toLine :=
    (EngineM.quiet_substituted host site s).toLine
  refine Quiet.get.bindAtomic fun p => ?_
  split
  · exact hskip
  · refine Quiet.get.bindAtomic fun p => ?_
    cases LineKind.classify content with
    | error fault => exact (Quiet.throw _).atomic
    | ok kind =>
        cases kind with
        | text =>
            dsimp only
            split
            · exact (hsubstituted content).bindAtomic atomic_emit
            · exact hskip
        | toggle indent body raw =>
            dsimp only
            split
            · cases raw with
              | true => exact atomic_emit _
              | false => exact (hsubstituted body).bindAtomic fun _ => atomic_emit _
            · exact hskip
        | directive d =>
            dsimp only
            split
            · exact atomic_conditional host site d
            · split
              · exact atomic_plain host site d
              · exact hskip

end LineM

/-- A line that fails changes nothing: the scope, the variables of every layer, the name of the
output and the log are as they were before it.  Only the host may have been called. -/
theorem unchanged_of_processLine_error (host : Host σ) (site : Site) (content : String)
    (s s' : Scope) (e e' : Engine σ) (fault : Fault)
    (h : e.processLine host site content s = (.error fault, s', e')) :
    s' = s ∧ e'.env = e.env ∧ e'.outname = e.outname ∧ e'.log = e.log := by
  have hkept := LineM.atomic_line host site content (s, e) fault (s', e') h
  simp only [LineM.apart, Engine.apart, Prod.mk.injEq] at hkept
  exact hkept

/-- The first marker of the line calls the host and the second one fails. -/
theorem unchanged_of_secondMarker :
    let e : Engine Nat :=
      { env := .forFile [] [("a", .int 1)] [] ⟨0, 0⟩ false, host := 0, outname := some "A.java"
        log := #[⟨.info, "before"⟩] }
    let s : Scope := ⟨⟨[⟨true, true, true, false, 1⟩], false⟩, true, true, 4⟩
    let o := e.processLine countingHost ⟨⟨"Main.java"⟩, 7⟩ "x /*$f()$*/ y /*$a / 0$*/" s
    o.1.toOption = none ∧ o.2.2.host = 1 ∧
      o.2.1 = s ∧ o.2.2.env = e.env ∧ o.2.2.outname = some "A.java" ∧ o.2.2.log.size = 1 := by
  intro e s o
  have hfails : o.1.toOption = none := by decide +kernel
  have hhost : o.2.2.host = 1 := by decide +kernel
  obtain ⟨fault, hfault⟩ := exists_error_of_toOption hfails
  obtain ⟨hscope, henv, hname, hlog⟩ := unchanged_of_processLine_error countingHost
    ⟨⟨"Main.java"⟩, 7⟩ "x /*$f()$*/ y /*$a / 0$*/" s o.2.1 e o.2.2 fault (Prod.ext hfault rfl)
  refine ⟨hfails, hhost, hscope, henv, hname, ?_⟩
  rw [hlog]
  rfl

end Preprocessor
