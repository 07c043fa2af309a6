/-
Two evaluations side by side.

The same expressions are evaluated twice, with hosts that answer alike and with chains of the same
variables.  The two evaluations may differ in what their hosts keep, and in the rule for unknown
names, which the second may take for false where the first fails.  Then the second has the value of
the first, or fails as it does, unless the first finds a name unknown.  And if the second, which
takes such a name for false, finds one unknown all the same, then its host has said so.
-/
import Preprocessor.Engine.Step
import Preprocessor.Proofs.OperationErrors
import Preprocessor.Source.Process

namespace Preprocessor

variable {σ σ' α β : Type}

/-! ## Computations side by side -/

/-- How two computations are compared: which states are related, which states the second keeps to,
which errors of the first excuse the second from ending alike, and what the state of the second
shows if it has such an error itself. -/
structure Contrast (ε τ τ' : Type) where
  related : τ → τ' → Prop
  kept : τ' → Prop
  excused : ε → Prop
  blamed : ε → τ' → Prop

/-- The first computation ends so that the second has to end alike. -/
def Contrast.Unexcused {ε τ τ' : Type} (c : Contrast ε τ τ') (r : Except ε α) : Prop :=
  ∀ err, r = .error err → ¬c.excused err

/-- The second computation ends as the first unless it is excused, and reports its own errors. -/
structure Contrast.Tracks {ε τ τ' : Type} (c : Contrast ε τ τ') (x : ExceptT ε (StateM τ) α)
    (y : ExceptT ε (StateM τ') α) : Prop where
  follows : ∀ {s s' r s₁}, c.related s s' → x.run s = (r, s₁) → c.Unexcused r →
    ∃ s₁', y.run s' = (r, s₁') ∧ c.related s₁ s₁'
  reports : ∀ {s' r s₁'}, c.kept s' → y.run s' = (r, s₁') →
    c.kept s₁' ∧ ∀ err, r = .error err → c.excused err → c.blamed err s₁'

namespace Contrast

variable {ε τ τ' : Type} {c : Contrast ε τ τ'}

theorem unexcused_ok (a : α) : c.Unexcused (.ok a) := by
  intro err h
  cases h

theorem unexcused_error {err : ε} (h : ¬c.excused err) :
    c.Unexcused (.error err : Except ε α) := by
  intro err' herr
  cases herr
  exact h

namespace Tracks

variable {x : ExceptT ε (StateM τ) α}
  {y : ExceptT ε (StateM τ') α}

theorem result {r r' : Except ε α} (h : c.Unexcused r → r' = r) (h' : c.Unexcused r') :
    c.Tracks (ExceptT.mk (Pure.pure r) : ExceptT ε (StateM τ) α)
      (ExceptT.mk (Pure.pure r') : ExceptT ε (StateM τ') α) where
  follows hs hrun hexcused := by
    cases hrun
    rw [h hexcused]
    exact ⟨_, rfl, hs⟩
  reports hs hrun := by
    cases hrun
    exact ⟨hs, fun err herr hexcused => absurd hexcused (h' err herr)⟩

theorem pure (a : α) : c.Tracks (Pure.pure a : ExceptT ε (StateM τ) α)
    (Pure.pure a : ExceptT ε (StateM τ') α) :=
  result (fun _ => rfl) (unexcused_ok a)

theorem throw {err : ε} (h : ¬c.excused err) :
    c.Tracks (MonadExcept.throw err : ExceptT ε (StateM τ) α)
      (MonadExcept.throw err : ExceptT ε (StateM τ') α) :=
  result (fun _ => rfl) (unexcused_error h)

theorem bind {f : α → ExceptT ε (StateM τ) β} {g : α → ExceptT ε (StateM τ') β}
    (hx : c.Tracks x y) (hf : ∀ a, c.Tracks (f a) (g a)) : c.Tracks (x >>= f) (y >>= g) where
  follows {s s' r s₂} hs hrun hexcused := by
    rcases hr : x.run s with ⟨err | a, s₁⟩
    · rw [run_bind_of_error hr] at hrun
      cases hrun
      have hown : c.Unexcused (.error err : Except ε α) :=
        unexcused_error (hexcused err rfl)
      obtain ⟨s₁', hy, hs₁⟩ := hx.follows hs hr hown
      exact ⟨s₁', run_bind_of_error hy, hs₁⟩
    · rw [run_bind_of_ok hr] at hrun
      obtain ⟨s₁', hy, hs₁⟩ := hx.follows hs hr (unexcused_ok a)
      rw [run_bind_of_ok hy]
      exact (hf a).follows hs₁ hrun hexcused
  reports {s' r s₂'} hs hrun := by
    rcases hr : y.run s' with ⟨err | a, s₁'⟩
    · obtain ⟨hkept, hblamed⟩ := hx.reports hs hr
      rw [run_bind_of_error hr] at hrun
      cases hrun
      refine ⟨hkept, fun err' herr hexcused => ?_⟩
      cases herr
      exact hblamed err rfl hexcused
    · rw [run_bind_of_ok hr] at hrun
      exact (hf a).reports (hx.reports hs hr).1 hrun

theorem modify {f : τ → τ} {g : τ' → τ'} (h : ∀ s s', c.related s s' → c.related (f s) (g s'))
    (h' : ∀ s', c.kept s' → c.kept (g s')) :
    c.Tracks (modify f : ExceptT ε (StateM τ) PUnit)
      (modify g : ExceptT ε (StateM τ') PUnit) where
  follows {s s' _ _} hs hrun _ := by
    cases hrun
    exact ⟨g s', rfl, h s s' hs⟩
  reports {s' _ _} hs hrun := by
    cases hrun
    exact ⟨h' s' hs, fun err herr => by cases herr⟩

theorem ask {f : τ → α} {g : τ' → α} (h : ∀ s s', c.related s s' → g s' = f s) :
    c.Tracks (ExceptT.mk fun s => (.ok (f s), s) : ExceptT ε (StateM τ) α)
      (ExceptT.mk fun s => (.ok (g s), s) : ExceptT ε (StateM τ') α) where
  follows {s s' _ _} hs hrun _ := by
    cases hrun
    exact ⟨s', congrArg (Except.ok ·, s') (h s s' hs), hs⟩
  reports hs hrun := by
    cases hrun
    exact ⟨hs, fun err herr => by cases herr⟩

end Tracks

end Contrast

/-! ## Hosts and environments side by side -/

/-- In related states the second host answers as the first and the states stay related. -/
structure Host.Simulates (related : σ → σ' → Prop) (host : Host σ) (host' : Host σ') : Prop where
  takesAction : ∀ {s s'}, related s s' → ∀ arity,
    host'.takesAction s' arity = host.takesAction s arity
  knowsFunction : ∀ {s s'}, related s s' → ∀ name arity,
    host'.knowsFunction s' name arity = host.knowsFunction s name arity
  act : ∀ {s s'}, related s s' → ∀ site args,
    (host'.act site args s').1 = (host.act site args s).1 ∧
      related (host.act site args s).2 (host'.act site args s').2
  call : ∀ {s s'}, related s s' → ∀ site name args,
    (host'.call site name args s').1 = (host.call site name args s).1 ∧
      related (host.call site name args s).2 (host'.call site name args s').2

/-- Two runs that are compared: their hosts, whether unknown names are false in the first and in
the second, and whom to blame for an unknown name if only the second takes it for false. -/
structure Comparison (σ σ' : Type) where
  first : Host σ
  second : Host σ'
  related : σ → σ' → Prop
  simulates : first.Simulates related second
  policy : Bool
  policy' : Bool
  /-- The second run is no stricter than the first. -/
  lenient : policy = true → policy' = true
  blamed : EvalError → σ' → Prop
  /-- The host of the second run shows whom to blame. -/
  blames : policy ≠ policy' → ∀ {site name args s err s₁},
    second.call site name args s = (.error err, s₁) → err.kind = .unknownVariable → blamed err s₁

namespace Comparison

variable (k : Comparison σ σ')

/-- The kind of error that the second run need not have if the first has it. -/
def Excused (kind : DiagnosticKind) : Prop :=
  k.policy ≠ k.policy' ∧ kind = .unknownVariable

theorem not_excused {kind : DiagnosticKind} (h : kind ≠ .unknownVariable) : ¬k.Excused kind :=
  fun hexcused => h hexcused.2

/-- The error of an expression for which the host of the second run is to blame. -/
def Blames (fault : Fault) (s' : σ') : Prop :=
  ∃ err, fault = .eval err ∧ k.blamed err s'

/-- Chains of the same variables, each with the rule of its run. -/
structure Environments (env env' : Environment) : Prop where
  layers : env'.layers = env.layers
  policy : env.unknownAsFalse = k.policy
  policy' : env'.unknownAsFalse = k.policy'

/-- Engines that differ at most in the rule for unknown names and in the states of their hosts. -/
structure Engines (e : Engine σ) (e' : Engine σ') : Prop where
  env : k.Environments e.env e'.env
  host : k.related e.host e'.host
  outname : e'.outname = e.outname
  log : e'.log = e.log

/-- The values of expressions. -/
def values : Contrast EvalError σ σ' where
  related := k.related
  kept _ := True
  excused err := k.Excused err.kind
  blamed := k.blamed

/-- What involves the host. -/
def hosted : Contrast Fault σ σ' where
  related := k.related
  kept _ := True
  excused fault := k.Excused fault.kind
  blamed := k.Blames

/-- What involves the engine. -/
def engines : Contrast Fault (Engine σ) (Engine σ') where
  related := k.Engines
  kept e' := e'.env.unknownAsFalse = k.policy'
  excused fault := k.Excused fault.kind
  blamed fault e' := k.Blames fault e'.host

/-- What a line does. -/
def lines : Contrast Fault (Scope × Engine σ) (Scope × Engine σ') where
  related p p' := p'.1 = p.1 ∧ k.Engines p.2 p'.2
  kept p' := p'.2.env.unknownAsFalse = k.policy'
  excused fault := k.Excused fault.kind
  blamed fault p' := k.Blames fault p'.2.host

/-- What a whole run does. -/
def runs : Contrast Diagnostic (Engine σ) (Engine σ') where
  related := k.Engines
  kept e' := e'.env.unknownAsFalse = k.policy'
  excused d := k.Excused d.fault.kind
  blamed d e' := k.Blames d.fault e'.host

variable {k}

namespace Environments

variable {env env' : Environment}

theorem ofSecond (h : env'.unknownAsFalse = k.policy') :
    k.Environments ⟨env'.layers, k.policy⟩ env' :=
  ⟨rfl, rfl, h⟩

theorem lookup (h : k.Environments env env') (name : String) (site : Site) :
    env'.lookup name site = env.lookup name site := by
  rw [Environment.lookup, h.layers, Environment.lookup]

theorem isDefined (h : k.Environments env env') (name : String) (site : Site) :
    env'.isDefined name site = env.isDefined name site := by
  rw [Environment.isDefined, h.lookup, Environment.isDefined]

/-- Where only one of the two finds a name unknown, it is the first, and excused. -/
theorem resolve (h : k.Environments env env') (name : String) (site : Site) :
    k.values.Tracks (Hosted.ofExcept (env.resolve name site))
      (Hosted.ofExcept (env'.resolve name site)) := by
  refine .result (fun hexcused => ?_) fun err herr hexcused => ?_
  · have hlookup := h.lookup name site
    rw [Environment.resolve, hlookup, h.policy']
    rw [Environment.resolve, h.policy] at hexcused ⊢
    cases hvalue : env.lookup name site with
    | some v => rfl
    | none =>
        rw [hvalue] at hexcused
        by_cases hpolicy : k.policy = k.policy'
        · rw [hpolicy]
        · -- a rule that differs is strict in the first run, which then fails
          have hstrict : k.policy = false := by
            cases hfirst : k.policy with
            | false => rfl
            | true => exact absurd (hfirst.trans (k.lenient hfirst).symm) hpolicy
          rw [hstrict] at hexcused
          exact absurd ⟨hpolicy, rfl⟩ (hexcused _ rfl)
  · -- the second run is lenient where the rules differ, so it finds no name unknown
    have hlenient : k.policy' = true := by
      cases hfirst : k.policy with
      | true => exact k.lenient hfirst
      | false =>
          cases hsecond : k.policy' with
          | true => rfl
          | false => exact absurd (hfirst.trans hsecond.symm) hexcused.1
    rw [Environment.resolve, h.policy', hlenient] at herr
    cases hvalue : env'.lookup name site with
    | some v => rw [hvalue] at herr; cases herr
    | none => rw [hvalue] at herr; cases herr

end Environments

/-! ## Expressions -/

theorem tracks_operation {r : Except EvalError α} (h : OperationErrors r) :
    k.values.Tracks (Hosted.ofExcept r) (Hosted.ofExcept r) :=
  .result (fun _ => rfl) fun err herr =>
    k.not_excused (EvalError.kind_ne_of_isOfOperation (h err herr))

theorem tracks_fails {err : EvalError} (h : err.isOfOperation = true) :
    k.values.Tracks (throw err : Hosted σ EvalError α) (throw err : Hosted σ' EvalError α) :=
  .throw (k.not_excused (EvalError.kind_ne_of_isOfOperation h))

theorem tracks_callFunction (site : Site) (name : String) (args : List Value) :
    k.values.Tracks (Hosted.callFunction k.first site name args)
      (Hosted.callFunction k.second site name args) where
  follows {s s' r s₁} hs hrun _ := by
    obtain ⟨hresult, hstate⟩ := k.simulates.call hs site name args
    have hcall : k.first.call site name args s = (r, s₁) := hrun
    rw [hcall] at hresult hstate
    exact ⟨(k.second.call site name args s').2, Prod.ext hresult rfl, hstate⟩
  reports {s' r s₁'} _ hrun := by
    refine ⟨trivial, fun err herr hexcused => ?_⟩
    subst herr
    exact k.blames hexcused.1 hrun hexcused.2

theorem tracks_knowsFunction (name : String) (arity : Nat) :
    k.values.Tracks (Hosted.ask (k.first.knowsFunction · name arity))
      (Hosted.ask (k.second.knowsFunction · name arity)) :=
  .ask fun _ _ hs => k.simulates.knowsFunction hs name arity

section

variable {env env' : Environment}

theorem evalDefined_eq (henv : k.Environments env env') (site : Site) (args : List Expr) :
    Expr.evalDefined env' site args = Expr.evalDefined env site args := by
  unfold Expr.evalDefined
  split
  · rw [henv.isDefined]
  · rfl

mutual

theorem tracks_eval (henv : k.Environments env env') (site : Site) : ∀ e : Expr,
    k.values.Tracks (e.eval k.first env site) (e.eval k.second env' site)
  | .literal v => .pure v
  | .name s => by
      rw [Expr.eval, Expr.eval]
      exact henv.resolve s site
  | .unary op operand => by
      rw [Expr.eval, Expr.eval]
      exact (tracks_eval henv site operand).bind fun v =>
        tracks_operation (op.operationErrors_apply v)
  | .binary op left right => by
      rw [Expr.eval, Expr.eval]
      refine (tracks_eval henv site left).bind fun l => ?_
      split
      · exact (tracks_eval henv site right).bind fun r =>
          tracks_operation (op.operationErrors_apply l r)
      · split
        · exact tracks_fails rfl
        · split
          · exact .pure _
          · refine (tracks_eval henv site right).bind fun r => ?_
            split
            · exact .pure _
            · exact tracks_fails rfl
  | .call s args => by
      rw [Expr.eval, Expr.eval]
      split
      · rw [evalDefined_eq henv]
        exact tracks_operation (Expr.operationErrors_evalDefined env site args)
      · split
        · rename_i f _
          exact (tracks_evalAll henv site args).bind fun vs =>
            tracks_operation (f.operationErrors_apply vs)
        · refine (tracks_knowsFunction s args.length).bind fun known => ?_
          cases known with
          | true =>
              exact (tracks_evalAll henv site args).bind fun vs => tracks_callFunction site s vs
          | false => exact tracks_fails rfl
  | .set items => by
      rw [Expr.eval, Expr.eval]
      exact (tracks_evalAll henv site items).bind fun vs => .pure _

theorem tracks_evalAll (henv : k.Environments env env') (site : Site) : ∀ es : List Expr,
    k.values.Tracks (Expr.evalAll k.first env site es) (Expr.evalAll k.second env' site es)
  | [] => .pure []
  | e :: es => by
      rw [Expr.evalAll, Expr.evalAll]
      exact (tracks_eval henv site e).bind fun v =>
        (tracks_evalAll henv site es).bind fun vs => .pure _

end

theorem tracks_evaluate (henv : k.Environments env env') (site : Site) (s : String) :
    k.values.Tracks (evaluate k.first env site s) (evaluate k.second env' site s) := by
  unfold evaluate
  split
  · exact tracks_eval henv site _
  · exact .throw (k.not_excused DiagnosticKind.noConfusion)

end

end Comparison

end Preprocessor
