/-
The calls that an expression makes.

Which functions of the host an expression calls, and in which order, can be read off its tree once
the answers are known: operands and arguments come from left to right and before what they belong
to, and an error ends the list.  The right operand of `&&` and `||` adds nothing if the left one
decides, and the argument of `defined` adds nothing at all.  `Traced` says so in rules that know
neither the state of the host nor that there is one.  The calls of an evaluation are then the one
list that the rules allow and that the host answers in this way.

The rules spell out which left operands decide, and use nothing of the evaluator for it, so that
they can be read and judged by themselves.  They are rules and not a function, because which calls
come next depends on the answers to those before.
-/
import Preprocessor.Proofs.UnknownNames

namespace Preprocessor

variable {σ : Type}

/-! ## Calls and answers -/

/-- The host answers the calls, one after the other, and goes from one state to the other. -/
inductive Host.Answers (host : Host σ) : σ → List Call → σ → Prop
  | nil {s : σ} : host.Answers s [] s
  | function {s s₁ s' : σ} {site : Site} {name : String} {args : List Value}
      {result : Except EvalError Value} {t : List Call} :
      host.call site name args s = (result, s₁) → host.Answers s₁ t s' →
      host.Answers s (.function site name args result :: t) s'
  | action {s s₁ s' : σ} {site : Site} {args : List Value} {accepted : Bool} {t : List Call} :
      host.act site args s = (accepted, s₁) → host.Answers s₁ t s' →
      host.Answers s (.action site args accepted :: t) s'

/-- What the host takes and knows does not depend on its state. -/
structure Host.Steady (host : Host σ) (takes : Nat → Bool) (knows : String → Nat → Bool) :
    Prop where
  takesAction : ∀ s arity, host.takesAction s arity = takes arity
  knowsFunction : ∀ s name arity, host.knowsFunction s name arity = knows name arity

namespace Host.Answers

variable {host : Host σ} {s s₁ s' : σ} {t t' : List Call}

theorem append (h : host.Answers s t s₁) (h' : host.Answers s₁ t' s') :
    host.Answers s (t ++ t') s' := by
  induction h with
  | nil => exact h'
  | function hcall _ ih => exact .function hcall (ih h')
  | action hact _ ih => exact .action hact (ih h')

theorem exists_of_append (h : host.Answers s (t ++ t') s') :
    ∃ s₁, host.Answers s t s₁ ∧ host.Answers s₁ t' s' := by
  induction t generalizing s with
  | nil => exact ⟨s, .nil, h⟩
  | cons call t ih =>
      cases h with
      | function hcall hrest =>
          obtain ⟨s₁, hfirst, hsecond⟩ := ih hrest
          exact ⟨s₁, .function hcall hfirst, hsecond⟩
      | action hact hrest =>
          obtain ⟨s₁, hfirst, hsecond⟩ := ih hrest
          exact ⟨s₁, .action hact hfirst, hsecond⟩

end Host.Answers

/-! ## The trace of an expression -/

/-- The value of `&&` or `||` after a left operand that does not decide. -/
def BinaryOp.applyRight (op : BinaryOp) (l r : Value) : Except EvalError Value :=
  if r.bool?.isSome then .ok r else .error (mismatch op [l, r])

section

variable (knows : String → Nat → Bool) (env : Environment) (site : Site)

mutual

/-- The calls of an expression, in order, and its value or error, if the host knows the functions
`knows`.  A call may have any answer. -/
inductive Traced : Expr → List Call → Except EvalError Value → Prop
  | literal (v : Value) : Traced (.literal v) [] (.ok v)
  | name (s : String) : Traced (.name s) [] (env.resolve s site)
  | unary {op : UnaryOp} {operand : Expr} {t : List Call} {r : Except EvalError Value} :
      Traced operand t r → Traced (.unary op operand) t (r >>= op.apply)
  | leftFails {op : BinaryOp} {left right : Expr} {t : List Call} {err : EvalError} :
      Traced left t (.error err) → Traced (.binary op left right) t (.error err)
  | binary {op : BinaryOp} {left right : Expr} {t t' : List Call} {l : Value}
      {r : Except EvalError Value} :
      op ≠ .and → op ≠ .or → Traced left t (.ok l) → Traced right t' r →
      Traced (.binary op left right) (t ++ t') (r >>= op.apply l)
  | andFalse {left right : Expr} {t : List Call} :
      Traced left t (.ok (.bool false)) →
      Traced (.binary .and left right) t (.ok (.bool false))
  | andTrue {left right : Expr} {t t' : List Call} {r : Except EvalError Value} :
      Traced left t (.ok (.bool true)) → Traced right t' r →
      Traced (.binary .and left right) (t ++ t') (r >>= BinaryOp.applyRight .and (.bool true))
  | orTrue {left right : Expr} {t : List Call} :
      Traced left t (.ok (.bool true)) →
      Traced (.binary .or left right) t (.ok (.bool true))
  | orFalse {left right : Expr} {t t' : List Call} {r : Except EvalError Value} :
      Traced left t (.ok (.bool false)) → Traced right t' r →
      Traced (.binary .or left right) (t ++ t') (r >>= BinaryOp.applyRight .or (.bool false))
  | notBool {op : BinaryOp} {left right : Expr} {t : List Call} {l : Value} :
      op = .and ∨ op = .or → Traced left t (.ok l) → l.bool? = none →
      Traced (.binary op left right) t (.error (mismatch op [l]))
  | defined (args : List Expr) :
      Traced (.call "defined" args) [] (Expr.evalDefined env site args)
  | builtin {s : String} {f : Function} {args : List Expr} {t : List Call}
      {r : Except EvalError (List Value)} :
      s ≠ "defined" → Function.ofName? s = some f → TracedAll args t r →
      Traced (.call s args) t (r >>= f.apply)
  | argumentFails {s : String} {args : List Expr} {t : List Call} {err : EvalError} :
      s ≠ "defined" → Function.ofName? s = none → knows s args.length = true →
      TracedAll args t (.error err) → Traced (.call s args) t (.error err)
  | call {s : String} {args : List Expr} {t : List Call} {values : List Value}
      (answer : Except EvalError Value) :
      s ≠ "defined" → Function.ofName? s = none → knows s args.length = true →
      TracedAll args t (.ok values) →
      Traced (.call s args) (t ++ [.function site s values answer]) answer
  | unknown {s : String} {args : List Expr} :
      s ≠ "defined" → Function.ofName? s = none → knows s args.length = false →
      Traced (.call s args) [] (.error (.unknownFunction s args.length))
  | set {items : List Expr} {t : List Call} {r : Except EvalError (List Value)} :
      TracedAll items t r →
      Traced (.set items) t (r.map fun values => .set (.ofList (values.map Value.text)))

inductive TracedAll : List Expr → List Call → Except EvalError (List Value) → Prop
  | nil : TracedAll [] [] (.ok [])
  | fails {e : Expr} {es : List Expr} {t : List Call} {err : EvalError} :
      Traced e t (.error err) → TracedAll (e :: es) t (.error err)
  | cons {e : Expr} {es : List Expr} {t t' : List Call} {v : Value}
      {r : Except EvalError (List Value)} :
      Traced e t (.ok v) → TracedAll es t' r → TracedAll (e :: es) (t ++ t') (r.map (v :: ·))

end

end

/-! ## Computations that make calls -/

/-- With calls recorded, the computation makes the calls `t` and ends with `r`, for a host that
answers them.  Its state holds that of the host in a frame, which stays as it is. -/
def Makes {τ ε α : Type} (host : Host σ) (frame : σ × List Call → τ) (x : ExceptT ε (StateM τ) α)
    (t : List Call) (r : Except ε α) : Prop :=
  ∀ s s' calls, host.Answers s t s' →
    x.run (frame (s, calls)) = (r, frame (s', t.reverse ++ calls))

namespace Makes

section

variable {τ ε α β : Type} {host : Host σ} {frame : σ × List Call → τ} {x : ExceptT ε (StateM τ) α}
  {f : α → ExceptT ε (StateM τ) β} {t t' : List Call}

theorem result (r : Except ε α) :
    Makes host frame (ExceptT.mk (Pure.pure r) : ExceptT ε (StateM τ) α) [] r := by
  intro s s' calls hanswers
  cases hanswers
  rfl

theorem pure (a : α) : Makes host frame (Pure.pure a : ExceptT ε (StateM τ) α) [] (.ok a) :=
  result (.ok a)

theorem throw (err : ε) :
    Makes host frame (MonadExcept.throw err : ExceptT ε (StateM τ) α) [] (.error err) :=
  result (.error err)

theorem bind {a : α} {r : Except ε β} (hx : Makes host frame x t (.ok a))
    (hf : Makes host frame (f a) t' r) : Makes host frame (x >>= f) (t ++ t') r := by
  intro s s' calls hanswers
  obtain ⟨s₁, hfirst, hsecond⟩ := hanswers.exists_of_append
  rw [run_bind_of_ok (hx s s₁ calls hfirst), hf s₁ s' _ hsecond]
  simp

theorem bindError {err : ε} (hx : Makes host frame x t (.error err)) :
    Makes host frame (x >>= f) t (.error err) :=
  fun s s' calls hanswers => run_bind_of_error (hx s s' calls hanswers)

theorem afterQuiet {a : α} {r : Except ε β} (hx : Makes host frame x [] (.ok a))
    (hf : Makes host frame (f a) t r) : Makes host frame (x >>= f) t r :=
  hx.bind hf

theorem thenQuiet {a : α} {r : Except ε β} (hx : Makes host frame x t (.ok a))
    (hf : Makes host frame (f a) [] r) : Makes host frame (x >>= f) t r := by
  have h := hx.bind hf
  rwa [List.append_nil] at h

theorem bindQuiet {r : Except ε α} {g : α → Except ε β} (hx : Makes host frame x t r)
    (hf : ∀ a, Makes host frame (f a) [] (g a)) : Makes host frame (x >>= f) t (r >>= g) := by
  cases r with
  | error err => exact hx.bindError
  | ok a => exact hx.thenQuiet (hf a)

theorem map {r : Except ε α} {g : α → β} (hx : Makes host frame x t r) :
    Makes host frame (x >>= fun a => Pure.pure (g a)) t (r.map g) := by
  cases r with
  | error err => exact hx.bindError
  | ok a => exact hx.thenQuiet (pure (g a))

end

section

variable {ε α : Type} {host : Host σ} {t : List Call}

theorem ask {question : σ → α} {a : α} (h : ∀ s, question s = a) :
    Makes host id (Hosted.ask fun s => question s.1 : Hosted (σ × List Call) ε α) [] (.ok a) := by
  intro s s' calls hanswers
  cases hanswers
  show (Except.ok (question s), s, calls) = _
  rw [h]
  rfl

theorem callFunction (site : Site) (name : String) (args : List Value)
    (answer : Except EvalError Value) :
    Makes host id (Hosted.callFunction host.recording site name args)
      [.function site name args answer] answer := by
  intro s s' calls hanswers
  cases hanswers with
  | function hcall hrest =>
      cases hrest
      show host.recording.call site name args (s, calls) = _
      simp [Host.recording, hcall]

theorem act (site : Site) (args : List Value) (accepted : Bool) :
    Makes host id (Hosted.act host.recording site args : Hosted (σ × List Call) ε Bool)
      [.action site args accepted] (.ok accepted) := by
  intro s s' calls hanswers
  cases hanswers with
  | action hact hrest =>
      cases hrest
      show (Except.ok (host.recording.act site args (s, calls)).1, _) = _
      simp [Host.recording, hact]

theorem withError {ε' : Type} {x : Hosted (σ × List Call) ε α} {r : Except ε α}
    (hx : Makes host id x t r) (f : ε → ε') : Makes host id (x.withError f) t (r.mapError f) := by
  intro s s' calls hanswers
  have hrun := hx s s' calls hanswers
  rw [id, id] at hrun
  cases r with
  | error err => simp [Hosted.withError, hrun, Except.mapError]
  | ok a => simp [Hosted.withError, hrun, Except.mapError]

end

end Makes

def Engine.withRecord (e : Engine σ) (host : σ × List Call) : Engine (σ × List Call) :=
  ⟨e.env, host, e.outname, e.log⟩

theorem Makes.ofHosted {α : Type} {host : Host σ} {e : Engine σ} {t : List Call}
    {r : Except Fault α} {x : Environment → Hosted (σ × List Call) Fault α}
    (hx : Makes host id (x e.env) t r) :
    Makes host e.withRecord (EngineM.ofHosted x) t r := by
  intro s s' calls hanswers
  have hrun : (x e.env).run (s, calls) = (r, s', t.reverse ++ calls) := hx s s' calls hanswers
  show (((x e.env).run (s, calls)).1,
    { e.withRecord (s, calls) with host := ((x e.env).run (s, calls)).2 }) = _
  rw [hrun]
  rfl

theorem Makes.toLine {α : Type} {host : Host σ} {e : Engine σ} {t : List Call} {r : Except Fault α}
    {x : EngineM (σ × List Call) α} (hx : Makes host e.withRecord x t r) (scope : Scope) :
    Makes host (fun p => (scope, e.withRecord p)) x.toLine t r :=
  fun s s' calls hanswers => run_toLine (hx s s' calls hanswers) scope

/-! ## The calls of an evaluation are its trace -/

section

variable {host : Host σ} {takes : Nat → Bool} {knows : String → Nat → Bool} {env : Environment}
  {site : Site}

theorem makes_knowsFunction (h : host.Steady takes knows) (name : String) (arity : Nat) :
    Makes host id (Hosted.ask (host.recording.knowsFunction · name arity) :
      Hosted (σ × List Call) EvalError Bool) [] (.ok (knows name arity)) :=
  Makes.ask fun s => h.knowsFunction s name arity

theorem BinaryOp.decidedBy_eq_none {op : BinaryOp} (hand : op ≠ .and) (hor : op ≠ .or) :
    op.decidedBy = none := by
  cases op with
  | and => exact absurd rfl hand
  | or => exact absurd rfl hor
  | _ => rfl

theorem makes_right (op : BinaryOp) (l r : Value) :
    Makes host id (match r.bool? with
      | some c => return .bool c
      | none => throw (mismatch op [l, r]) : Hosted (σ × List Call) EvalError Value) []
      (op.applyRight l r) := by
  cases r with
  | bool c => exact .pure _
  | _ => exact .throw _

-- The recursion is on the rules and not on the expression: the rule that was used fixes the way
-- that the evaluation takes through its cases.
mutual

/-- The evaluation makes the calls of a trace, if the host answers them as the trace says. -/
theorem Traced.makes (h : host.Steady takes knows) {e : Expr} {t : List Call}
    {r : Except EvalError Value} : Traced knows env site e t r →
      Makes host id (e.eval host.recording env site) t r
  | .literal v => by
      rw [Expr.eval]
      exact .pure v
  | .name s => by
      rw [Expr.eval]
      exact .result _
  | .unary hoperand => by
      rw [Expr.eval]
      exact (hoperand.makes h).bindQuiet fun _ => .result _
  | .leftFails hleft => by
      rw [Expr.eval]
      exact (hleft.makes h).bindError
  | .binary hand hor hleft hright => by
      rw [Expr.eval]
      refine (hleft.makes h).bind ?_
      rw [BinaryOp.decidedBy_eq_none hand hor]
      exact (hright.makes h).bindQuiet fun _ => .result _
  | .andFalse hleft => by
      rw [Expr.eval]
      exact (hleft.makes h).thenQuiet (.pure _)
  | .andTrue hleft hright => by
      rw [Expr.eval]
      exact (hleft.makes h).bind ((hright.makes h).bindQuiet (makes_right .and _))
  | .orTrue hleft => by
      rw [Expr.eval]
      exact (hleft.makes h).thenQuiet (.pure _)
  | .orFalse hleft hright => by
      rw [Expr.eval]
      exact (hleft.makes h).bind ((hright.makes h).bindQuiet (makes_right .or _))
  | .notBool hop hleft hbool => by
      rw [Expr.eval]
      refine (hleft.makes h).thenQuiet ?_
      rcases hop with rfl | rfl <;> dsimp only [BinaryOp.decidedBy] <;> rw [hbool] <;>
        exact .throw _
  | .defined args => by
      rw [Expr.eval, if_pos rfl]
      exact .result _
  | .builtin hdefined hname hargs => by
      rw [Expr.eval, if_neg hdefined, hname]
      exact (hargs.makes h).bindQuiet fun _ => .result _
  | .argumentFails hdefined hname hknows hargs => by
      rw [Expr.eval, if_neg hdefined, hname]
      refine (makes_knowsFunction h _ _).afterQuiet ?_
      rw [hknows]
      exact (hargs.makes h).bindError
  | .call answer hdefined hname hknows hargs => by
      rw [Expr.eval, if_neg hdefined, hname]
      refine (makes_knowsFunction h _ _).afterQuiet ?_
      rw [hknows]
      exact (hargs.makes h).bind (.callFunction site _ _ answer)
  | .unknown hdefined hname hknows => by
      rw [Expr.eval, if_neg hdefined, hname]
      refine (makes_knowsFunction h _ _).afterQuiet ?_
      rw [hknows]
      exact .throw _
  | .set hitems => by
      rw [Expr.eval]
      exact (hitems.makes h).map

theorem TracedAll.makes (h : host.Steady takes knows) {es : List Expr} {t : List Call}
    {r : Except EvalError (List Value)} : TracedAll knows env site es t r →
      Makes host id (Expr.evalAll host.recording env site es) t r
  | .nil => by
      rw [Expr.evalAll]
      exact .pure []
  | .fails he => by
      rw [Expr.evalAll]
      exact (he.makes h).bindError
  | .cons he hes => by
      rw [Expr.evalAll]
      exact (he.makes h).bind (hes.makes h).map

end

end

/-! ## Every expression has a trace -/

theorem Value.eq_of_bool? {v : Value} {b : Bool} (h : v.bool? = some b) : v = .bool b := by
  cases v with
  | bool c =>
      cases h
      rfl
  | _ => cases h

section

variable (host : Host σ) (knows : String → Nat → Bool) (env : Environment) (site : Site)

mutual

/-- Whatever state the host is in, it answers the calls of some trace. -/
theorem exists_traced : ∀ (e : Expr) (s : σ), ∃ t r s',
    Traced knows env site e t r ∧ host.Answers s t s'
  | .literal v, s => ⟨[], _, s, .literal v, .nil⟩
  | .name n, s => ⟨[], _, s, .name n, .nil⟩
  | .unary op operand, s => by
      obtain ⟨t, r, s', hoperand, hanswers⟩ := exists_traced operand s
      exact ⟨t, _, s', .unary hoperand, hanswers⟩
  | .binary op left right, s => by
      obtain ⟨t, r, s₁, hleft, hanswers⟩ := exists_traced left s
      cases r with
      | error err => exact ⟨t, _, s₁, .leftFails hleft, hanswers⟩
      | ok l =>
          obtain ⟨t', r, s', hright, hanswers'⟩ := exists_traced right s₁
          have hboth := hanswers.append hanswers'
          by_cases hop : op = .and ∨ op = .or
          · cases hbool : l.bool? with
            | none => exact ⟨t, _, s₁, .notBool hop hleft hbool, hanswers⟩
            | some b =>
                obtain rfl := Value.eq_of_bool? hbool
                rcases hop with rfl | rfl <;> cases b
                · exact ⟨t, _, s₁, .andFalse hleft, hanswers⟩
                · exact ⟨_, _, s', .andTrue hleft hright, hboth⟩
                · exact ⟨_, _, s', .orFalse hleft hright, hboth⟩
                · exact ⟨t, _, s₁, .orTrue hleft, hanswers⟩
          · obtain ⟨hand, hor⟩ := not_or.mp hop
            exact ⟨_, _, s', .binary hand hor hleft hright, hboth⟩
  | .call name args, s => by
      by_cases hdefined : name = "defined"
      · subst hdefined
        exact ⟨[], _, s, .defined args, .nil⟩
      obtain ⟨t, r, s₁, hargs, hanswers⟩ := exists_tracedAll args s
      cases hname : Function.ofName? name with
      | some f => exact ⟨t, _, s₁, .builtin hdefined hname hargs, hanswers⟩
      | none =>
          cases hknows : knows name args.length with
          | false => exact ⟨[], _, s, .unknown hdefined hname hknows, .nil⟩
          | true =>
              cases r with
              | error err =>
                  exact ⟨t, _, s₁, .argumentFails hdefined hname hknows hargs, hanswers⟩
              | ok values =>
                  exact ⟨_, _, (host.call site name values s₁).2,
                    .call (host.call site name values s₁).1 hdefined hname hknows hargs,
                    hanswers.append (.function rfl .nil)⟩
  | .set items, s => by
      obtain ⟨t, r, s', hitems, hanswers⟩ := exists_tracedAll items s
      exact ⟨t, _, s', .set hitems, hanswers⟩

theorem exists_tracedAll : ∀ (es : List Expr) (s : σ), ∃ t r s',
    TracedAll knows env site es t r ∧ host.Answers s t s'
  | [], s => ⟨[], _, s, .nil, .nil⟩
  | e :: es, s => by
      obtain ⟨t, r, s₁, he, hanswers⟩ := exists_traced e s
      cases r with
      | error err => exact ⟨t, _, s₁, .fails he, hanswers⟩
      | ok v =>
          obtain ⟨t', r, s', hes, hanswers'⟩ := exists_tracedAll es s₁
          exact ⟨_, _, s', .cons he hes, hanswers.append hanswers'⟩

end

end

end Preprocessor
