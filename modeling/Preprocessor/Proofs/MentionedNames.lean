/-
An expression depends on the names in it only.

An expression looks up the variables that occur in it and, where `defined` is asked about a text,
the name that this text is.  Two environments that have the same values for these names at a place,
and one rule for unknown names, cannot be told apart by it there: not by its value or error, not by
the calls that it makes of the host, and not by what the host makes of them.
-/
import Preprocessor.Proofs.CallOrder
import Preprocessor.Proofs.IntegerExactness

namespace Preprocessor

variable {σ : Type}

namespace Expr

/-- The name that an expression looks up itself, apart from its parts. -/
def lookedUp? : Expr → Option String
  | .name x => some x
  | .call f [.literal (.str x)] => if f = "defined" then some x else none
  | _ => none

def mentioned (e : Expr) : List String :=
  e.parts.filterMap lookedUp?

theorem mem_mentioned_iff {e : Expr} {x : String} :
    x ∈ e.mentioned ↔
      .name x ∈ e.parts ∨ .call "defined" [.literal (.str x)] ∈ e.parts := by
  rw [mentioned, List.mem_filterMap]
  constructor
  · rintro ⟨part, hpart, hx⟩
    unfold lookedUp? at hx
    split at hx
    · cases hx
      exact .inl hpart
    · obtain ⟨rfl, hx⟩ := Option.ite_none_right_eq_some.mp hx
      cases hx
      exact .inr hpart
    · cases hx
  · rintro (hname | hcall)
    · exact ⟨_, hname, rfl⟩
    · exact ⟨_, hcall, rfl⟩

end Expr

/-- At a place, two environments have one rule for unknown names and the same values for the names
that some expressions look up. -/
structure Environment.Agree (site : Site) (env env' : Environment) (es : List Expr) : Prop where
  rule : env'.unknownAsFalse = env.unknownAsFalse
  names : ∀ x, .name x ∈ es → env'.lookup x site = env.lookup x site
  texts : ∀ x, .call "defined" [.literal (.str x)] ∈ es → env'.lookup x site = env.lookup x site

namespace Environment.Agree

variable {site : Site} {env env' : Environment} {es es' : List Expr} {e : Expr}

theorem mono (h : Agree site env env' es) (hsub : ∀ e ∈ es', e ∈ es) :
    Agree site env env' es' where
  rule := h.rule
  names x hx := h.names x (hsub _ hx)
  texts x hx := h.texts x (hsub _ hx)

theorem tail (h : Agree site env env' (e :: es)) : Agree site env env' es :=
  h.mono fun _ => List.mem_cons_of_mem e

theorem left (h : Agree site env env' (es ++ es')) : Agree site env env' es :=
  h.mono fun _ => List.mem_append_left es'

theorem right (h : Agree site env env' (es ++ es')) : Agree site env env' es' :=
  h.mono fun _ => List.mem_append_right es

theorem resolve_eq {x : String} (h : Agree site env env' es) (hx : .name x ∈ es) :
    env'.resolve x site = env.resolve x site := by
  rw [Environment.resolve, Environment.resolve, h.names x hx, h.rule]

/-- The argument of `defined` is not evaluated: it is a variable or a text, which both stand for the
name that is looked up, or nothing is looked up. -/
theorem evalDefined_eq {args : List Expr}
    (h : Agree site env env' (Expr.call "defined" args).parts) :
    Expr.evalDefined env' site args = Expr.evalDefined env site args := by
  rw [Expr.parts] at h
  unfold Expr.evalDefined
  cases hname : Expr.definedName? args with
  | none => rfl
  | some x =>
      have hlookup : env'.lookup x site = env.lookup x site := by
        unfold Expr.definedName? at hname
        split at hname
        · cases hname
          exact h.names x (by simp [Expr.partsOf, Expr.parts])
        · cases hname
          exact h.texts x List.mem_cons_self
        · cases hname
      simp only [Environment.isDefined, hlookup]

end Environment.Agree

namespace Expr

section

variable {site : Site} {env env' : Environment} (host : Host σ)

-- Both evaluations are one and the same computation, so nothing has to be said of the states that
-- the host goes through: a call in the one is the call in the other.
mutual

/-- Environments that agree on what an expression looks up give one evaluation of it. -/
theorem eval_of_agree : ∀ e : Expr, env.Agree site env' e.parts →
    e.eval host env' site = e.eval host env site
  | .literal _, _ => by rw [eval, eval]
  | .name x, h => by rw [eval, eval, h.resolve_eq (self_mem_parts _)]
  | .unary op operand, h => by
      rw [parts] at h
      rw [eval, eval, eval_of_agree operand h.tail]
  | .binary op left right, h => by
      rw [parts] at h
      rw [eval, eval, eval_of_agree left h.tail.left, eval_of_agree right h.tail.right]
  | .call f args, h => by
      by_cases hdefined : f = "defined"
      · subst hdefined
        rw [eval, eval, if_pos rfl, if_pos rfl, h.evalDefined_eq]
      · rw [parts] at h
        rw [eval, eval, if_neg hdefined, if_neg hdefined, evalAll_of_agree args h.tail]
  | .set items, h => by
      rw [parts] at h
      rw [eval, eval, evalAll_of_agree items h.tail]

theorem evalAll_of_agree : ∀ es : List Expr, env.Agree site env' (partsOf es) →
    evalAll host env' site es = evalAll host env site es
  | [], _ => by rw [evalAll, evalAll]
  | e :: es, h => by
      rw [partsOf] at h
      rw [evalAll, evalAll, eval_of_agree e h.left, evalAll_of_agree es h.right]

end

end

end Expr

def evaluationCalls (host : Host σ) (env : Environment) (site : Site) (text : String) (s : σ) :
    List Call :=
  ((evaluate host.recording env site text).run (s, [])).2.2.reverse

section

variable {site : Site} {text : String} {env env' : Environment}

theorem evaluate_of_agree (host : Host σ)
    (h : ∀ e, Expr.parse text = .ok e → env.Agree site env' e.parts) :
    evaluate host env' site text = evaluate host env site text := by
  unfold evaluate
  cases hparse : Expr.parse text with
  | error err => rfl
  | ok e => exact e.eval_of_agree host (h e hparse)

/-- Evaluation depends on the names that the text mentions only.  If two environments have one rule
for unknown names and agree, at a place, on the names that the expression of a text mentions, then
evaluating the text there has one result in both, with the same calls of the host, and leaves the
host in the same state. -/
theorem evaluate_eq_of_mentioned (host : Host σ)
    (hrule : env'.unknownAsFalse = env.unknownAsFalse)
    (hnames : ∀ e, Expr.parse text = .ok e →
      ∀ x ∈ e.mentioned, env'.lookup x site = env.lookup x site) (s : σ) :
    (evaluate host env' site text).run s = (evaluate host env site text).run s ∧
      evaluationCalls host env' site text s = evaluationCalls host env site text s := by
  have hagree : ∀ e, Expr.parse text = .ok e → env.Agree site env' e.parts := by
    intro e hparse
    refine ⟨hrule, fun x hx => hnames e hparse x ?_, fun x hx => hnames e hparse x ?_⟩
    · exact Expr.mem_mentioned_iff.mpr (.inl hx)
    · exact Expr.mem_mentioned_iff.mpr (.inr hx)
  refine ⟨?_, ?_⟩
  · rw [evaluate_of_agree host hagree]
  · rw [evaluationCalls, evaluationCalls, evaluate_of_agree host.recording hagree]

/-- Four names are mentioned, two of them to `defined`, and a fifth is known to the second
environment alone. -/
theorem evaluate_eq_of_fourNames :
    let text := "f(size) && !defined(\"debug\") && defined(level) && g() == missing"
    let names := ["size", "debug", "level", "missing"]
    let env : Environment := ⟨[.store "local" [("size", .int 3), ("level", .int 1)]], true⟩
    let env' : Environment :=
      ⟨[.frozen "global" [("other", .str "x"), ("level", .int 1)],
        .store "local" [("size", .int 3)]], true⟩
    let site : Site := ⟨⟨"main"⟩, 0⟩
    (Expr.parse text).toOption.map Expr.mentioned = some names ∧
      (∀ x ∈ names, env'.lookup x site = env.lookup x site) ∧
      env'.lookup "other" site ≠ env.lookup "other" site ∧
      ((evaluate alternatingHost env site text).run 0).1 = .ok (.bool true) ∧
      (evaluationCalls alternatingHost env site text 0).map Call.label? =
        [some ("f", 1), some ("g", 0)] ∧
      (evaluate alternatingHost env' site text).run 0 =
        (evaluate alternatingHost env site text).run 0 ∧
      evaluationCalls alternatingHost env' site text 0 =
        evaluationCalls alternatingHost env site text 0 := by
  intro text names env env' site
  have hmentioned : (Expr.parse text).toOption.map Expr.mentioned = some names := by
    decide +kernel
  have hlookup : ∀ x ∈ names, env'.lookup x site = env.lookup x site := by decide +kernel
  have hother : env'.lookup "other" site ≠ env.lookup "other" site := by decide +kernel
  have hvalue : ((evaluate alternatingHost env site text).run 0).1 = .ok (.bool true) :=
    eq_ok_of_toOption (by decide +kernel)
  have hcalls : (evaluationCalls alternatingHost env site text 0).map Call.label? =
      [some ("f", 1), some ("g", 0)] := by
    decide +kernel
  have hnames : ∀ e, Expr.parse text = .ok e →
      ∀ x ∈ e.mentioned, env'.lookup x site = env.lookup x site := by
    intro e hparse x hx
    rw [hparse] at hmentioned
    rw [Option.some.inj hmentioned] at hx
    exact hlookup x hx
  have hrule : env'.unknownAsFalse = env.unknownAsFalse := rfl
  have hsame := evaluate_eq_of_mentioned alternatingHost hrule hnames 0
  exact ⟨hmentioned, hlookup, hother, hvalue, hcalls, hsame⟩

end

end Preprocessor
