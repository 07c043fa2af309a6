/-
The order of calls and the questions before them.

The calls that an evaluation makes are the trace of the expression.  So they come as they stand in
its tree, up to an error, and each of them is a call of a function that the language does not have
and that the host said it knows.  A line with an action makes the calls of its arguments first, and
the action itself once at the end, if the host takes so many arguments.
-/
import Preprocessor.Proofs.CallTrace

namespace Preprocessor

variable {σ : Type}

/-! ## Calls as they stand in an expression -/

/-- The name and the number of arguments of a call of a function. -/
def Call.label? : Call → Option (String × Nat)
  | .function _ name args _ => some (name, args.length)
  | .action _ _ _ => none

/-- A call of a function that the language does not have and that the host knows. -/
def Call.Asked (knows : String → Nat → Bool) (site : Site) (call : Call) : Prop :=
  ∃ name args result, call = .function site name args result ∧ name ≠ "defined" ∧
    Function.ofName? name = none ∧ knows name args.length = true

/-- Every list of the first kind with one of the second after it. -/
def appended {α : Type} (firsts seconds : List (List α)) : List (List α) :=
  firsts.flatMap fun first => seconds.map (first ++ ·)

theorem append_mem_appended {α : Type} {firsts seconds : List (List α)} {first second : List α}
    (h : first ∈ firsts) (h' : second ∈ seconds) : first ++ second ∈ appended firsts seconds :=
  List.mem_flatMap.mpr ⟨first, h, List.mem_map_of_mem h'⟩

namespace Expr

mutual

/-- The calls that an expression can come to, as they stand in its tree: from left to right and
arguments before the call.  The right operand of `&&` and `||` is in or out as a whole, and an
argument of `defined` is out. -/
def listings : Expr → List (List (String × Nat))
  | literal _ => [[]]
  | .name _ => [[]]
  | unary _ operand => operand.listings
  | binary op left right =>
    (if op = .and ∨ op = .or then left.listings else []) ++
      appended left.listings right.listings
  | call s args =>
    if s = "defined" then [[]]
    else if (Function.ofName? s).isSome then listingsAll args
    else appended (listingsAll args) [[(s, args.length)]]
  | set items => listingsAll items

def listingsAll : List Expr → List (List (String × Nat))
  | [] => [[]]
  | e :: es => appended e.listings (listingsAll es)

end

mutual

theorem exists_listing : ∀ e : Expr, ∃ l, l ∈ e.listings
  | literal _ => ⟨[], List.mem_singleton_self _⟩
  | .name _ => ⟨[], List.mem_singleton_self _⟩
  | unary _ operand => exists_listing operand
  | binary op left right => by
      obtain ⟨l, hl⟩ := exists_listing left
      obtain ⟨l', hl'⟩ := exists_listing right
      exact ⟨l ++ l', List.mem_append_right _ (append_mem_appended hl hl')⟩
  | call s args => by
      obtain ⟨l, hl⟩ := exists_listingsAll args
      rw [listings]
      split
      · exact ⟨[], List.mem_singleton_self _⟩
      · split
        · exact ⟨l, hl⟩
        · exact ⟨_, append_mem_appended hl (List.mem_singleton_self _)⟩
  | set items => exists_listingsAll items

theorem exists_listingsAll : ∀ es : List Expr, ∃ l, l ∈ listingsAll es
  | [] => ⟨[], List.mem_singleton_self _⟩
  | e :: es => by
      obtain ⟨l, hl⟩ := exists_listing e
      obtain ⟨l', hl'⟩ := exists_listingsAll es
      exact ⟨l ++ l', append_mem_appended hl hl'⟩

end

end Expr

/-- The calls that are made are one of the listings, cut short if an error ends them. -/
def Call.Lists {α : Type} (t : List Call) (r : Except EvalError α)
    (listings : List (List (String × Nat))) : Prop :=
  ∃ l ∈ listings, t.filterMap label? <+: l ∧ ∀ a, r = .ok a → t.filterMap label? = l

section

variable {knows : String → Nat → Bool} {env : Environment} {site : Site}

theorem TracedAll.length_eq {es : List Expr} {t : List Call} {values : List Value}
    (h : TracedAll knows env site es t (.ok values)) : values.length = es.length := by
  induction es generalizing t values with
  | nil =>
      cases h
      rfl
  | cons e es ih =>
      generalize hr : (Except.ok values : Except EvalError (List Value)) = r at h
      cases h with
      | fails _ => cases hr
      | cons _ hes =>
          obtain ⟨rest, rfl, rfl⟩ := exists_of_map_eq_ok hr.symm
          simp [ih hes]

mutual

/-- No function is called that the language has itself or that the host does not know. -/
theorem Traced.asked {e : Expr} {t : List Call} {r : Except EvalError Value} :
    Traced knows env site e t r → ∀ call ∈ t, call.Asked knows site
  | .literal v => by simp
  | .name s => by simp
  | .unary hoperand => hoperand.asked
  | .leftFails hleft => hleft.asked
  | .binary _ _ hleft hright => List.forall_mem_append.mpr ⟨hleft.asked, hright.asked⟩
  | .andFalse hleft => hleft.asked
  | .andTrue hleft hright => List.forall_mem_append.mpr ⟨hleft.asked, hright.asked⟩
  | .orTrue hleft => hleft.asked
  | .orFalse hleft hright => List.forall_mem_append.mpr ⟨hleft.asked, hright.asked⟩
  | .notBool _ hleft _ => hleft.asked
  | .defined args => by simp
  | .builtin _ _ hargs => hargs.asked
  | .argumentFails _ _ _ hargs => hargs.asked
  | .call answer hdefined hname hknows hargs => by
      refine List.forall_mem_append.mpr ⟨hargs.asked, ?_⟩
      rw [← hargs.length_eq] at hknows
      intro call hcall
      obtain rfl := List.mem_singleton.mp hcall
      exact ⟨_, _, _, rfl, hdefined, hname, hknows⟩
  | .unknown _ _ _ => by simp
  | .set hitems => hitems.asked

theorem TracedAll.asked {es : List Expr} {t : List Call} {r : Except EvalError (List Value)} :
    TracedAll knows env site es t r → ∀ call ∈ t, call.Asked knows site
  | .nil => by simp
  | .fails he => he.asked
  | .cons he hes => List.forall_mem_append.mpr ⟨he.asked, hes.asked⟩

end

end

namespace Call.Lists

variable {α β : Type} {t t' : List Call} {a : α} {r : Except EvalError α} {r' : Except EvalError β}
  {err : EvalError} {ls ls' : List (List (String × Nat))}

theorem nil (h : [] ∈ ls) : Call.Lists [] r ls :=
  ⟨[], h, List.prefix_rfl, fun _ _ => rfl⟩

theorem nilError (h : ∃ l, l ∈ ls) : Call.Lists [] (.error err : Except EvalError α) ls := by
  obtain ⟨l, hl⟩ := h
  exact ⟨l, hl, List.nil_prefix, fun a ha => (by cases ha)⟩

theorem mono (h : Call.Lists t r ls) (hsub : ls ⊆ ls') : Call.Lists t r ls' := by
  obtain ⟨l, hl, hcut, hall⟩ := h
  exact ⟨l, hsub hl, hcut, hall⟩

theorem bind (h : Call.Lists t r ls) (f : α → Except EvalError β) :
    Call.Lists t (r >>= f) ls := by
  obtain ⟨l, hl, hcut, hall⟩ := h
  refine ⟨l, hl, hcut, fun b hb => ?_⟩
  obtain ⟨a, ha, -⟩ := exists_of_bind_eq_ok hb
  exact hall a ha

theorem map (h : Call.Lists t r ls) (f : α → β) : Call.Lists t (r.map f) ls := by
  obtain ⟨l, hl, hcut, hall⟩ := h
  refine ⟨l, hl, hcut, fun b hb => ?_⟩
  obtain ⟨a, ha, -⟩ := exists_of_map_eq_ok hb
  exact hall a ha

theorem cut (h : Call.Lists t (.error err : Except EvalError α) ls) (h' : ∃ l, l ∈ ls') :
    Call.Lists t (.error err : Except EvalError β) (appended ls ls') := by
  obtain ⟨l, hl, hcut, -⟩ := h
  obtain ⟨l', hl'⟩ := h'
  exact ⟨l ++ l', append_mem_appended hl hl', hcut.trans (List.prefix_append l l'),
    fun b hb => (by cases hb)⟩

theorem append (h : Call.Lists t (.ok a) ls) (h' : Call.Lists t' r' ls') :
    Call.Lists (t ++ t') r' (appended ls ls') := by
  obtain ⟨l, hl, -, hall⟩ := h
  obtain ⟨l', hl', hcut', hall'⟩ := h'
  refine ⟨l ++ l', append_mem_appended hl hl', ?_, fun b hb => ?_⟩
  · rw [List.filterMap_append, hall a rfl]
    exact (List.prefix_append_right_inj l).mpr hcut'
  · rw [List.filterMap_append, hall a rfl, hall' b hb]

end Call.Lists

section

variable {knows : String → Nat → Bool} {env : Environment} {site : Site}

mutual

theorem Traced.lists {e : Expr} {t : List Call} {r : Except EvalError Value} :
    Traced knows env site e t r → Call.Lists t r e.listings
  | .literal v => .nil (List.mem_singleton_self _)
  | .name s => .nil (List.mem_singleton_self _)
  | .unary hoperand => hoperand.lists.bind _
  | .leftFails hleft =>
      (hleft.lists.cut (Expr.exists_listing _)).mono (List.subset_append_right _ _)
  | .binary _ _ hleft hright =>
      ((hleft.lists.append hright.lists).bind _).mono (List.subset_append_right _ _)
  | .andFalse hleft => hleft.lists.mono (List.subset_append_left _ _)
  | .andTrue hleft hright =>
      ((hleft.lists.append hright.lists).bind _).mono (List.subset_append_right _ _)
  | .orTrue hleft => hleft.lists.mono (List.subset_append_left _ _)
  | .orFalse hleft hright =>
      ((hleft.lists.append hright.lists).bind _).mono (List.subset_append_right _ _)
  | .notBool hop hleft _ => by
      rw [Expr.listings, if_pos hop]
      exact (hleft.lists.bind fun _ => .error _).mono (List.subset_append_left _ _)
  | .defined args => .nil (List.mem_singleton_self _)
  | .builtin hdefined hname hargs => by
      rw [Expr.listings, if_neg hdefined, hname]
      exact hargs.lists.bind _
  | .argumentFails hdefined hname _ hargs => by
      rw [Expr.listings, if_neg hdefined, hname]
      exact hargs.lists.cut ⟨_, List.mem_singleton_self _⟩
  | .call answer hdefined hname _ hargs => by
      rw [Expr.listings, if_neg hdefined, hname, ← hargs.length_eq]
      refine hargs.lists.append ⟨_, List.mem_singleton_self _, ?_, fun _ _ => ?_⟩
      · exact List.prefix_rfl
      · rfl
  | .unknown _ _ _ => .nilError (Expr.exists_listing _)
  | .set hitems => hitems.lists.map _

theorem TracedAll.lists {es : List Expr} {t : List Call} {r : Except EvalError (List Value)} :
    TracedAll knows env site es t r → Call.Lists t r (Expr.listingsAll es)
  | .nil => .nil (List.mem_singleton_self _)
  | .fails he => he.lists.cut (Expr.exists_listingsAll _)
  | .cons he hes => (he.lists.append hes.lists).map _

end

end

/-! ## The calls of an evaluation -/

section

variable {host : Host σ} {takes : Nat → Bool} {knows : String → Nat → Bool} {env : Environment}
  {site : Site}

def Expr.calls (host : Host σ) (env : Environment) (site : Site) (s : σ) (e : Expr) : List Call :=
  ((e.eval host.recording env site).run (s, [])).2.2.reverse

theorem Expr.run_eval_of_recorded {e : Expr} {s s' : σ} {calls calls' : List Call}
    {r : Except EvalError Value}
    (h : (e.eval host.recording env site).run (s, calls) = (r, s', calls')) :
    (e.eval host env site).run s = (r, s') := by
  let k := Comparison.ofRecording host env.unknownAsFalse
  have henv : k.Environments env env := ⟨rfl, rfl, rfl⟩
  have hstart : k.values.related (s, calls) s := rfl
  obtain ⟨s₁, hrun, hs₁⟩ := (Comparison.tracks_eval henv site e).follows hstart h
    fun err _ hexcused => absurd rfl hexcused.1
  have hstate : s' = s₁ := hs₁
  rw [hstate]
  exact hrun

/-- A trace with the answers of the host tells the calls of the evaluation and how it ends. -/
theorem Traced.run_eval (h : host.Steady takes knows) {e : Expr} {t : List Call}
    {r : Except EvalError Value} {s s' : σ} (htraced : Traced knows env site e t r)
    (hanswers : host.Answers s t s') :
    e.calls host env site s = t ∧ (e.eval host env site).run s = (r, s') := by
  have hrun : (e.eval host.recording env site).run (s, []) = (r, s', t.reverse ++ []) :=
    htraced.makes h s s' [] hanswers
  refine ⟨?_, Expr.run_eval_of_recorded hrun⟩
  rw [Expr.calls, hrun]
  simp

end

/-! ## The calls of a line with an action -/

/-- The calls of an action, and how it ends: all arguments are evaluated first, and the action is
performed, once, if the host takes so many. -/
inductive ActionTraced (takes : Nat → Bool) (knows : String → Nat → Bool) (env : Environment)
    (site : Site) (args : String) : List Call → Except Fault Unit → Prop
  | unread {err : ParseError} : Expr.parseList args = .error err →
      ActionTraced takes knows env site args [] (.error (.eval (.parse err)))
  | argumentFails {exprs : List Expr} {t : List Call} {err : EvalError} :
      Expr.parseList args = .ok exprs → TracedAll knows env site exprs t (.error err) →
      ActionTraced takes knows env site args t (.error (.eval err))
  | declined {exprs : List Expr} {t : List Call} {values : List Value} :
      Expr.parseList args = .ok exprs → TracedAll knows env site exprs t (.ok values) →
      takes values.length = false →
      ActionTraced takes knows env site args t (.error (.noActionHandler values.length))
  | performed {exprs : List Expr} {t : List Call} {values : List Value} (accepted : Bool) :
      Expr.parseList args = .ok exprs → TracedAll knows env site exprs t (.ok values) →
      takes values.length = true →
      ActionTraced takes knows env site args (t ++ [.action site values accepted])
        (if accepted then .ok () else .error .actionRejected)

section

variable {host : Host σ} {takes : Nat → Bool} {knows : String → Nat → Bool} {site : Site}
  {args : String}

theorem makes_values (h : host.Steady takes knows) {e : Engine σ} {exprs : List Expr}
    {t : List Call} {r : Except EvalError (List Value)}
    (htraced : TracedAll knows e.env site exprs t r) :
    Makes host e.withRecord
      (EngineM.ofHosted fun env => (Expr.evalAll host.recording env site exprs).withError .eval) t
      (r.mapError Fault.eval) :=
  .ofHosted ((htraced.makes h).withError Fault.eval)

theorem makes_takesAction (h : host.Steady takes knows) (e : Engine σ) (arity : Nat) :
    Makes host e.withRecord (EngineM.ofHosted fun _ => .ask (host.recording.takesAction · arity)) []
      (.ok (takes arity)) :=
  .ofHosted (.ask fun s => h.takesAction s arity)

theorem ActionTraced.makes (h : host.Steady takes knows) {e : Engine σ} {t : List Call}
    {r : Except Fault Unit} (htraced : ActionTraced takes knows e.env site args t r) :
    Makes host e.withRecord (EngineM.action host.recording site args) t r := by
  cases htraced with
  | unread hparse =>
      rw [EngineM.action, hparse]
      exact .throw _
  | argumentFails hparse hvalues =>
      rw [EngineM.action, hparse]
      exact (makes_values h hvalues).bindError
  | declined hparse hvalues htakes =>
      rw [EngineM.action, hparse]
      refine (makes_values h hvalues).thenQuiet ?_
      refine (makes_takesAction h e _).afterQuiet ?_
      rw [htakes]
      exact .throw _
  | performed accepted hparse hvalues htakes =>
      rw [EngineM.action, hparse]
      refine (makes_values h hvalues).bind ?_
      refine (makes_takesAction h e _).afterQuiet ?_
      rw [htakes]
      refine (Makes.ofHosted (.act site _ accepted)).thenQuiet ?_
      cases accepted with
      | true => exact .pure ()
      | false => exact .throw _

theorem exists_actionTraced (host : Host σ) (takes : Nat → Bool) (knows : String → Nat → Bool)
    (env : Environment) (site : Site) (args : String) (s : σ) : ∃ t r s',
      ActionTraced takes knows env site args t r ∧ host.Answers s t s' := by
  cases hparse : Expr.parseList args with
  | error err => exact ⟨[], _, s, .unread hparse, .nil⟩
  | ok exprs =>
      obtain ⟨t, r, s₁, hvalues, hanswers⟩ := exists_tracedAll host knows env site exprs s
      cases r with
      | error err => exact ⟨t, _, s₁, .argumentFails hparse hvalues, hanswers⟩
      | ok values =>
          cases htakes : takes values.length with
          | false => exact ⟨t, _, s₁, .declined hparse hvalues htakes, hanswers⟩
          | true =>
              exact ⟨_, _, (host.act site values s₁).2,
                .performed (host.act site values s₁).1 hparse hvalues htakes,
                hanswers.append (.action rfl .nil)⟩

def Engine.lineCalls (host : Host σ) (site : Site) (content : String) (scope : Scope)
    (e : Engine σ) : List Call :=
  (e.recording.processLine host.recording site content scope).2.2.host.2.reverse

theorem Engine.processLine_of_recorded {e : Engine σ} {content : String} {scope scope' : Scope}
    {e' : Engine (σ × List Call)} {r : Except Fault Step}
    (h : e.recording.processLine host.recording site content scope = (r, scope', e')) :
    e.processLine host site content scope = (r, scope', e'.unrecorded) := by
  let k := Comparison.ofRecording host e.env.unknownAsFalse
  have hstart : k.lines.related (scope, e.recording) (scope, e) :=
    ⟨rfl, ⟨rfl, rfl, rfl⟩, rfl, rfl, rfl⟩
  have htracks := Comparison.tracks_line (k := k) site content
  obtain ⟨p, hrun, hscope, hengine⟩ := htracks.follows hstart h
    fun fault _ hexcused => absurd rfl hexcused.1
  have hp : p = (scope', e'.unrecorded) := Prod.ext hscope (Comparison.eq_unrecorded hengine)
  rw [← hp]
  exact hrun

/-- An action comes last in its line, after its arguments and only if the host takes it. -/
theorem ActionTraced.once {env : Environment} {t before after : List Call} {r : Except Fault Unit}
    {site' : Site} {values : List Value} {accepted : Bool}
    (htraced : ActionTraced takes knows env site args t r)
    (ht : t = before ++ .action site' values accepted :: after) :
    after = [] ∧ takes values.length = true ∧
      ∃ exprs, Expr.parseList args = .ok exprs ∧
        TracedAll knows env site exprs before (.ok values) := by
  -- no call of an argument is an action
  have hargument : ∀ {exprs t r}, TracedAll knows env site exprs t r →
      Call.action site' values accepted ∉ t := by
    intro exprs t r hargs hmem
    obtain ⟨name, args, result, hcall, -⟩ := hargs.asked _ hmem
    cases hcall
  have hmem : Call.action site' values accepted ∈ t := by
    rw [ht]
    exact List.mem_append_right _ List.mem_cons_self
  cases htraced with
  | unread _ => cases hmem
  | argumentFails _ hargs => exact absurd hmem (hargument hargs)
  | declined _ hargs _ => exact absurd hmem (hargument hargs)
  | @performed exprs t values' accepted' hparse hargs htakes =>
      rcases List.append_eq_append_iff.mp ht with ⟨more, rfl, hlast⟩ | ⟨more, rfl, hlast⟩
      · obtain ⟨rfl, hlast⟩ | ⟨rfl, hlast⟩ := List.singleton_eq_append_iff.mp hlast
        · cases hlast
          rw [List.append_nil]
          exact ⟨rfl, htakes, exprs, hparse, hargs⟩
        · cases hlast
      · cases more with
        | nil =>
            cases hlast
            rw [List.append_nil] at hargs
            exact ⟨rfl, htakes, exprs, hparse, hargs⟩
        | cons call more =>
            obtain ⟨rfl, -⟩ := List.cons.inj hlast
            exact absurd (List.mem_append_right _ List.mem_cons_self) (hargument hargs)

theorem ActionTraced.processLine (h : host.Steady takes knows) {e : Engine σ} {t : List Call}
    {r : Except Fault Unit} {s' : σ} {content : String} {scope : Scope}
    (hkind : LineKind.classify content = .ok (.directive (.action args)))
    (hactive : scope.conditions.isActive = true)
    (htraced : ActionTraced takes knows e.env site args t r)
    (hanswers : host.Answers e.host t s') :
    e.lineCalls host site content scope = t ∧
      e.processLine host site content scope =
        (r.map fun _ => .skip, scope, { e with host := s' }) := by
  have hline : e.recording.processLine host.recording site content scope =
      (r.map fun _ => .skip, scope, e.withRecord (s', t.reverse ++ [])) := by
    rw [processLine_eq, hkind]
    simp only [hactive, Bool.not_true, Bool.false_and, Bool.false_eq_true, if_false, if_true]
    exact ((htraced.makes h).toLine scope).map e.host s' [] hanswers
  refine ⟨?_, Engine.processLine_of_recorded hline⟩
  rw [Engine.lineCalls, hline]
  simp [Engine.withRecord]

theorem Engine.lineCalls_of_suppressed {e : Engine σ} {content : String} {scope : Scope}
    (hkind : LineKind.classify content = .ok (.directive (.action args)))
    (hsuppressed : scope.conditions.isActive = false) :
    e.lineCalls host site content scope = [] := by
  have hordinary : LineKind.isOrdinary content = true := by rw [LineKind.isOrdinary, hkind]; rfl
  rw [lineCalls, processLine_of_suppressed host.recording site hordinary hsuppressed]
  rfl

end

/-- The calls of a host whose answers to questions do not change.  Those of an expression are its
trace with the answers of the host, which is the only such trace.  They are listed by the tree, up
to an error, and each is a call of a function that the host was asked about.  Those of a line with
an action are the trace of the action, in which the action comes once, at the end, after its
arguments and only if the host takes so many.  If the line does not count, it makes none. -/
theorem calls_in_order {host : Host σ} {takes : Nat → Bool} {knows : String → Nat → Bool}
    (h : host.Steady takes knows) (site : Site) :
    (∀ (env : Environment) (e : Expr) (s : σ),
      let t := e.calls host env site s
      let last := (e.eval host env site).run s
      (Traced knows env site e t last.1 ∧ host.Answers s t last.2) ∧
      (∀ t' r' s', Traced knows env site e t' r' → host.Answers s t' s' → t' = t) ∧
      Call.Lists t last.1 e.listings ∧
      ∀ call ∈ t, call.Asked knows site) ∧
    ∀ (content args : String) (scope : Scope) (e : Engine σ),
      LineKind.classify content = .ok (.directive (.action args)) →
      let t := e.lineCalls host site content scope
      let last := e.processLine host site content scope
      (scope.conditions.isActive = true →
        (∃ r, ActionTraced takes knows e.env site args t r ∧ last.1 = r.map fun _ => .skip) ∧
        host.Answers e.host t last.2.2.host ∧
        ∀ before site' values accepted after, t = before ++ .action site' values accepted :: after →
          after = [] ∧ takes values.length = true ∧
            ∃ exprs, Expr.parseList args = .ok exprs ∧
              TracedAll knows e.env site exprs before (.ok values)) ∧
      (scope.conditions.isActive = false → t = []) := by
  constructor
  · intro env e s
    obtain ⟨t, r, s', htraced, hanswers⟩ := exists_traced host knows env site e s
    obtain ⟨hcalls, hrun⟩ := htraced.run_eval h hanswers
    dsimp only
    rw [hcalls, hrun]
    refine ⟨⟨htraced, hanswers⟩, ?_, htraced.lists, htraced.asked⟩
    intro t' r' s'' htraced' hanswers'
    exact (htraced'.run_eval h hanswers').1.symm.trans hcalls
  · intro content args scope e hkind
    refine ⟨fun hactive => ?_, Engine.lineCalls_of_suppressed hkind⟩
    obtain ⟨t, r, s', htraced, hanswers⟩ :=
      exists_actionTraced host takes knows e.env site args e.host
    obtain ⟨hcalls, hline⟩ := htraced.processLine h hkind hactive hanswers
    rw [hcalls, hline]
    exact ⟨⟨r, htraced, rfl⟩, hanswers, fun _ _ _ _ _ ht => htraced.once ht⟩

/-- A host with three functions and an action of two arguments, which says yes and no in turn. -/
def alternatingHost : Host Nat where
  takesAction _ arity := arity == 2
  knowsFunction _ name arity := [("f", 1), ("g", 0), ("h", 0)].contains (name, arity)
  act _ _ s := (s % 2 == 0, s + 1)
  call _ _ _ s := (.ok (.bool (s % 2 == 0)), s + 1)
  wantsStop _ := false

/-- The second call says no, so that the right operand of `&&` is left alone; the argument of
`defined` is no name.  An action comes after the calls of its two arguments. -/
theorem calls_in_order_alternatingHost :
    let e : Expr := .binary .or (.binary .and (.call "f" [.call "g" []]) (.call "h" []))
      (.unary .not (.call "defined" [.call "h" []]))
    let env : Environment := ⟨[], false⟩
    let site : Site := ⟨⟨"main"⟩, 0⟩
    let takes := alternatingHost.takesAction 0
    let knows := alternatingHost.knowsFunction 0
    let t := e.calls alternatingHost env site 0
    let t' := (Engine.mk env 0 none #[]).lineCalls alternatingHost site "//#action g(), h()" {}
    t.map Call.label? = [some ("g", 0), some ("f", 1)] ∧
      [("g", 0), ("f", 1), ("h", 0)] ∈ e.listings ∧ (∀ call ∈ t, call.Asked knows site) ∧
      t'.map Call.label? = [some ("g", 0), some ("h", 0), none] ∧
      ∃ r, ActionTraced takes knows env site "g(), h()" t' r := by
  intro e env site takes knows t t'
  have hsteady : alternatingHost.Steady takes knows := ⟨fun _ _ => rfl, fun _ _ _ => rfl⟩
  have hcalls : t.map Call.label? = [some ("g", 0), some ("f", 1)] := by decide +kernel
  have hlisted : [("g", 0), ("f", 1), ("h", 0)] ∈ e.listings := by decide +kernel
  have hkind : LineKind.classify "//#action g(), h()" = .ok (.directive (.action "g(), h()")) :=
    eq_ok_of_toOption (by decide +kernel)
  have hline : t'.map Call.label? = [some ("g", 0), some ("h", 0), none] := by decide +kernel
  obtain ⟨hexpr, haction⟩ := calls_in_order hsteady site
  obtain ⟨-, -, -, hasked⟩ := hexpr env e 0
  obtain ⟨⟨r, htraced, -⟩, -⟩ := (haction _ _ {} ⟨env, 0, none, #[]⟩ hkind).1 rfl
  exact ⟨hcalls, hlisted, hasked, hline, r, htraced⟩

end Preprocessor
