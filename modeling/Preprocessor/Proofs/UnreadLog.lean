/-
The log is written and never read.

A run that starts with more in its log ends as it would without, and has as much more in the log
afterwards.  This is so for every step of the way, since the only access to the log is to add an
entry at its end.
-/
import Preprocessor.Proofs.Inclusion
import Preprocessor.Proofs.LineMirroring

namespace Preprocessor

variable {σ ε τ α β : Type}

/-! ## Computations that do not see a change of the state -/

/-- A change of the state does not show in the computation, and is there afterwards. -/
def Commutes (f : τ → τ) (x : ExceptT ε (StateM τ) α) : Prop :=
  ∀ s, x.run (f s) = ((x.run s).1, f (x.run s).2)

namespace Commutes

variable {f : τ → τ} {x : ExceptT ε (StateM τ) α} {g : α → ExceptT ε (StateM τ) β}

theorem pure (a : α) : Commutes f (Pure.pure a : ExceptT ε (StateM τ) α) :=
  fun _ => rfl

theorem throw (err : ε) : Commutes f (MonadExcept.throw err : ExceptT ε (StateM τ) α) :=
  fun _ => rfl

theorem bind (hx : Commutes f x) (hg : ∀ a, Commutes f (g a)) : Commutes f (x >>= g) := by
  intro s
  have hfirst := hx s
  rcases hrun : x.run s with ⟨err | a, s₁⟩ <;> rw [hrun] at hfirst
  · rw [run_bind_of_error hfirst, run_bind_of_error hrun]
  · rw [run_bind_of_ok hfirst, run_bind_of_ok hrun]
    exact hg a s₁

theorem modify {h : τ → τ} (hh : ∀ s, h (f s) = f (h s)) :
    Commutes f (modify h : ExceptT ε (StateM τ) PUnit) :=
  fun s => congrArg (Except.ok PUnit.unit, ·) (hh s)

theorem ask {h : τ → α} (hh : ∀ s, h (f s) = h s) :
    Commutes f (ExceptT.mk fun s => (.ok (h s), s) : ExceptT ε (StateM τ) α) :=
  fun s => congrArg (Except.ok ·, f s) (hh s)

end Commutes

/-- The engine with entries before those of its log. -/
def Engine.behind (base : Log) (e : Engine σ) : Engine σ :=
  { e with log := base ++ e.log }

variable {base : Log}

/-! ## Engines -/

namespace EngineM

open Engine

variable (host : Host σ) (site : Site)

theorem commutes_ofHosted (x : Environment → Hosted σ Fault α) :
    Commutes (behind base) (ofHosted x) :=
  fun _ => rfl

theorem commutes_record (level : Level) (message : String) :
    Commutes (behind base) (record level message : EngineM σ Unit) :=
  .modify fun e => congrArg (Engine.mk e.env e.host e.outname) Array.append_push.symm

theorem commutes_change (f : Environment → Except EvalError Environment) :
    Commutes (behind base) (change f : EngineM σ Unit) := by
  intro e
  cases hchange : f e.env with
  | error err => rw [run_change_of_error hchange, run_change_of_error (e := e.behind base) hchange]
  | ok env =>
      rw [run_change_of_ok hchange, run_change_of_ok (e := e.behind base) hchange]
      rfl

theorem commutes_string (keyword s : String) :
    Commutes (behind base) (string host site keyword s) := by
  refine (commutes_ofHosted _).bind fun v => ?_
  cases v with
  | str text => exact .pure text
  | _ => exact .throw _

theorem commutes_condition (s : String) : Commutes (behind base) (condition host site s) := by
  refine (commutes_ofHosted _).bind fun v => ?_
  cases v with
  | bool b => exact .pure b
  | _ => exact .throw _

theorem commutes_define (name : String) (expr : Option String) :
    Commutes (behind base) (define host site name expr) := by
  cases expr with
  | some s => exact (commutes_ofHosted _).bind fun v => commutes_change _
  | none => exact (Commutes.pure _).bind fun v => commutes_change _

theorem commutes_action (args : String) : Commutes (behind base) (action host site args) := by
  unfold action
  cases Expr.parseList args with
  | error err => exact .throw _
  | ok exprs =>
      refine (commutes_ofHosted _).bind fun values => (commutes_ofHosted _).bind fun taken => ?_
      cases taken with
      | false => exact .throw _
      | true =>
          refine (commutes_ofHosted _).bind fun accepted => ?_
          cases accepted with
          | false => exact .throw _
          | true => exact .pure ()

end EngineM

/-! ## Lines -/

namespace LineM

open EngineM

/-- The change of the log, seen from a line. -/
def behind (base : Log) : Scope × Engine σ → Scope × Engine σ :=
  Prod.map id (Engine.behind base)

variable (host : Host σ) (site : Site)

theorem commutes_toLine {x : EngineM σ α} (h : Commutes (Engine.behind base) x) :
    Commutes (behind base) x.toLine := by
  intro s
  rcases s with ⟨s, e⟩
  exact run_toLine (h e) s

theorem commutes_scope : Commutes (behind base) (scope : LineM σ Scope) :=
  fun _ => rfl

theorem commutes_isDefined (name : String) :
    Commutes (behind base) (isDefined site name : LineM σ Bool) :=
  fun _ => rfl

theorem commutes_changeScope (f : Scope → Scope) :
    Commutes (behind base) (changeScope f : LineM σ Unit) :=
  fun _ => rfl

theorem commutes_emit (text : String) : Commutes (behind base) (emit text : LineM σ Step) :=
  fun _ => rfl

theorem commutes_settle (pending : Conditions.Pending) {x : LineM σ Bool}
    (h : Commutes (behind base) x) : Commutes (behind base) (settle pending x) := by
  cases pending with
  | settled c => exact commutes_changeScope fun s => { s with conditions := c }
  | asks next => exact h.bind fun b => commutes_changeScope _

theorem commutes_liftExcept (r : Except Fault α) :
    Commutes (behind base) (conditional.liftExcept r : LineM σ α) :=
  fun _ => rfl

theorem commutes_conditional (d : Directive) :
    Commutes (behind base) (conditional host site d) := by
  have hcondition (expr : String) : Commutes (behind base) (condition host site expr).toLine :=
    commutes_toLine (commutes_condition host site expr)
  refine commutes_scope.bind fun s => ?_
  cases d with
  | ifTrue expr => exact (commutes_settle _ (hcondition expr)).bind fun _ => .pure _
  | ifDefined name => exact (commutes_settle _ (commutes_isDefined site name)).bind fun _ => .pure _
  | ifNotDefined name =>
      exact (commutes_settle _ ((commutes_isDefined site name).bind fun _ => .pure _)).bind
        fun _ => .pure _
  | elseIf expr =>
      exact (commutes_liftExcept _).bind fun pending =>
        (commutes_settle pending (hcondition expr)).bind fun _ => .pure _
  | otherwise =>
      exact (commutes_liftExcept _).bind fun _ => (commutes_changeScope _).bind fun _ => .pure _
  | endIf =>
      exact (commutes_liftExcept _).bind fun _ => (commutes_changeScope _).bind fun _ => .pure _
  | _ => exact .pure _

theorem commutes_plain (d : Directive) : Commutes (behind base) (plain host site d) := by
  have hvalue (expr : String) : Commutes (behind base) (value host site expr).toLine :=
    commutes_toLine (commutes_ofHosted _)
  have hstring (keyword expr : String) :
      Commutes (behind base) (string host site keyword expr).toLine :=
    commutes_toLine (commutes_string host site keyword expr)
  cases d with
  | excludeIf expr =>
      refine (commutes_toLine (commutes_condition host site expr)).bind fun b => ?_
      cases b with
      | true => exact (commutes_changeScope _).bind fun _ => .pure _
      | false => exact .pure _
  | define name expr =>
      exact (commutes_toLine (commutes_define host site name expr)).bind fun _ => .pure _
  | undefine name => exact (commutes_toLine (commutes_change _)).bind fun _ => .pure _
  | defineGlobal name expr => exact .throw _
  | includeFile expr => exact (hstring _ expr).bind fun _ => .pure _
  | action args => exact (commutes_toLine (commutes_action host site args)).bind fun _ => .pure _
  | outname expr =>
      refine (hstring _ expr).bind fun name => ?_
      dsimp only
      split
      · exact .throw _
      · refine Commutes.bind (.modify fun _ => rfl) fun _ => .pure _
  | error expr => exact (hvalue expr).bind fun _ => .throw _
  | warning expr =>
      exact (hvalue expr).bind fun _ =>
        (commutes_toLine (commutes_record _ _)).bind fun _ => .pure _
  | echo expr =>
      exact (hvalue expr).bind fun _ =>
        (commutes_toLine (commutes_record _ _)).bind fun _ => .pure _
  | outputOff => exact (commutes_changeScope _).bind fun _ => .pure _
  | outputOn => exact (commutes_changeScope _).bind fun _ => .pure _
  | commentNext => exact (commutes_changeScope _).bind fun _ => .pure _
  | unknown text => exact .throw _
  | _ => exact .pure _

theorem commutes_line (content : String) : Commutes (behind base) (line host site content) := by
  have hsubstituted (s : String) : Commutes (behind base) (substituted host site s).toLine :=
    commutes_toLine (commutes_ofHosted _)
  refine commutes_scope.bind fun s => ?_
  split
  · exact .pure _
  · refine commutes_scope.bind fun s => ?_
    cases LineKind.classify content with
    | error fault => exact .throw _
    | ok kind =>
        cases kind with
        | text =>
            dsimp only
            split
            · exact (hsubstituted content).bind commutes_emit
            · exact .pure _
        | toggle indent body raw =>
            dsimp only
            split
            · cases raw with
              | true => exact commutes_emit _
              | false => exact (hsubstituted body).bind fun _ => commutes_emit _
            · exact .pure _
        | directive d =>
            dsimp only
            split
            · exact commutes_conditional host site d
            · split
              · exact commutes_plain host site d
              · exact .pure _

end LineM

/-! ## Whole runs -/

namespace Source

open Engine

variable {t : FileTree} {options : Options} (host : Host σ)

theorem commutes_followLine (trail : Trail) (site : Site) (content : String) (scope : Scope) :
    Commutes (behind base) (followLine host trail site content scope) := by
  intro e
  have hline : (e.behind base).processLine host site content scope =
      ((e.processLine host site content scope).1, (e.processLine host site content scope).2.1,
        (e.processLine host site content scope).2.2.behind base) :=
    LineM.commutes_line host site content (scope, e)
  rcases hrun : e.processLine host site content scope with ⟨fault | step, scope₁, e₁⟩ <;>
    rw [hrun] at hline
  · rw [run_followLine_of_error trail hline, run_followLine_of_error trail hrun]
  · rw [run_followLine_of_ok trail hline, run_followLine_of_ok trail hrun]

theorem commutes_followLines {descend : Trail → Path → Output → RunM σ Output}
    (h : ∀ trail path out, Commutes (behind base) (descend trail path out)) (trail : Trail)
    (path : Path) (index : Nat) (lines : List Line) (scope : Scope) (out : Output) :
    Commutes (behind base)
      (followLines host t options descend trail path index lines scope out) := by
  induction lines generalizing trail index scope out with
  | nil => exact .pure _
  | cons line rest ih =>
      refine (commutes_followLine host _ _ _ _).bind fun next => ?_
      rcases next with ⟨step, scope₁⟩
      cases step with
      | emit text => exact ih _ _ _ _
      | skip => exact ih _ _ _ _
      | exclude => exact .pure _
      | includeFile target =>
          dsimp only
          cases openInclude t options (trail.atLine index) path target with
          | error fault => exact .throw _
          | ok included => exact (h _ _ _).bind fun out₁ => ih _ _ _ _

theorem commutes_process (room : Nat) (trail : Trail) (path : Path) (out : Output) :
    Commutes (behind base) (process host t options room trail path out) := by
  induction room generalizing trail path out with
  | zero => exact .throw _
  | succ room ih =>
      have hdescend (trail : Trail) (path : Path) (out : Output) :
          Commutes (behind base) (descendWithin host t options room trail path out) :=
        (ih trail path out).bind fun _ => .pure _
      rw [process_succ]
      unfold processWith
      cases readText t options path with
      | error fault => exact .throw _
      | ok decoded =>
          refine (commutes_followLines host hdescend _ _ _ _ _ _).bind fun result => ?_
          rcases result with ⟨fileEnd, scope, out⟩
          dsimp only
          split
          · exact .throw _
          · exact .pure _

theorem commutes_preprocess (root : Path) :
    Commutes (behind base) (preprocess host t options root) := by
  refine (commutes_process host _ _ _ _).bind fun result => ?_
  rcases result with ⟨fileEnd, bom, out⟩
  dsimp only
  split
  · exact .pure _
  · cases finish options root out.text with
    | error d => exact .throw d
    | ok text => exact .ask (h := fun e : Engine σ => Outcome.text text bom e.outname) fun _ => rfl

/-- With another log, a run has the same outcome and leaves the same behind, but for the log. -/
theorem exists_log_of_preprocess (t : FileTree) (options : Options) (root : Path) (e : Engine σ)
    (log : Log) :
    ∃ log', (preprocess host t options root).run { e with log := log } =
      (((preprocess host t options root).run e).1,
        { ((preprocess host t options root).run e).2 with log := log' }) := by
  have hstart (base : Log) : behind base { e with log := #[] } = { e with log := base } := by
    rw [behind, Array.append_empty]
  have hempty (base : Log) :
      (preprocess host t options root).run { e with log := base } =
        (((preprocess host t options root).run { e with log := #[] }).1,
          ((preprocess host t options root).run { e with log := #[] }).2.behind base) := by
    rw [← hstart base]
    exact commutes_preprocess host root _
  have hown : (preprocess host t options root).run e = _ := hempty e.log
  rw [hempty log, hown]
  exact ⟨_, rfl⟩

end Source

end Preprocessor
