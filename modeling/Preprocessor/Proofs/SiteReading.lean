/-
Which lines look at the place they stand at.

Four names tell the file and the line of an expression.  An expression that mentions none of them,
except where it asks whether a name is defined, has the same value at every place, as far as the
host has no part in it.  What a line evaluates can be read off the line, markers included, so it
can be told from a line whether it does the same wherever it stands.
-/
import Preprocessor.Proofs.LineSteps

namespace Preprocessor

variable {σ : Type}

/-! ## Names -/

/-- The names that tell the place of an expression. -/
def siteNames : List String :=
  ["__FILE__", "__FILENAME__", "__DIR__", "__LINE__"]

theorem Layer.lookup_congr {name : String} (h : siteNames.contains name = false) (layer : Layer)
    (site site' : Site) : layer.lookup name site = layer.lookup name site' := by
  cases layer with
  | builtin started =>
      simp only [siteNames, List.contains_cons, List.contains_nil, Bool.or_eq_false_iff] at h
      obtain ⟨hfile, hfilename, hdir, hline, -⟩ := h
      simp only [lookup, lookupBuiltin, hfile, hfilename, hdir, hline, Bool.false_eq_true, if_false]
  | _ => rfl

theorem Layer.isSome_lookup (layer : Layer) (name : String) (site site' : Site) :
    (layer.lookup name site).isSome = (layer.lookup name site').isSome := by
  cases hname : siteNames.contains name with
  | false => rw [layer.lookup_congr hname site site']
  | true =>
      cases layer with
      | builtin started =>
          simp only [siteNames, List.contains_cons, List.contains_nil, Bool.or_eq_true,
            beq_iff_eq, Bool.or_false] at hname
          rcases hname with rfl | rfl | rfl | rfl <;> rfl
      | _ => rfl

namespace Environment

theorem lookup_congr {name : String} (h : siteNames.contains name = false) (env : Environment)
    (site site' : Site) : env.lookup name site = env.lookup name site' := by
  have hlayer : (fun layer : Layer => layer.lookup name site) = (·.lookup name site') :=
    funext fun layer => layer.lookup_congr h site site'
  rw [lookup, hlayer, lookup]

theorem resolve_congr {name : String} (h : siteNames.contains name = false) (env : Environment)
    (site site' : Site) : env.resolve name site = env.resolve name site' := by
  rw [resolve, env.lookup_congr h site site', resolve]

theorem isDefined_congr (env : Environment) (name : String) (site site' : Site) :
    env.isDefined name site = env.isDefined name site' := by
  unfold isDefined lookup
  rw [Bool.eq_iff_iff, List.findSome?_isSome_iff, List.findSome?_isSome_iff]
  simp only [Layer.isSome_lookup _ name site site']

end Environment

/-! ## Expressions -/

namespace Expr

mutual

def readsSite : Expr → Bool
  | literal _ => false
  | .name s => siteNames.contains s
  | unary _ operand => operand.readsSite
  | binary _ left right => left.readsSite || right.readsSite
  | call s args => s != "defined" && anyReadsSite args
  | set items => anyReadsSite items

def anyReadsSite : List Expr → Bool
  | [] => false
  | e :: es => e.readsSite || anyReadsSite es

end

theorem evalDefined_congr (env : Environment) (site site' : Site) (args : List Expr) :
    evalDefined env site args = evalDefined env site' args := by
  unfold evalDefined
  split
  · rw [env.isDefined_congr _ site site']
  · rfl

variable (env : Environment) (site site' : Site)

mutual

theorem eval_congr : ∀ {e : Expr}, e.readsSite = false →
    e.eval (.declining σ) env site = e.eval (.declining σ) env site'
  | literal _, _ => rfl
  | .name s, h => by rw [eval, env.resolve_congr h site site', eval]
  | unary op operand, h => by
      have hoperand : operand.readsSite = false := h
      rw [eval, eval_congr hoperand, eval]
  | binary op left right, h => by
      obtain ⟨hleft, hright⟩ := Bool.or_eq_false_iff.mp h
      simp only [eval, eval_congr hleft, eval_congr hright]
  | call s args, h => by
      by_cases hs : s = "defined"
      · rw [eval, if_pos hs, evalDefined_congr env site site', eval, if_pos hs]
      · have hargs : anyReadsSite args = false := by simpa [readsSite, hs] using h
        rw [eval, eval, if_neg hs, if_neg hs, evalAll_congr hargs]
        split
        · rfl
        · rfl
  | set items, h => by
      have hitems : anyReadsSite items = false := h
      rw [eval, evalAll_congr hitems, eval]

theorem evalAll_congr : ∀ {es : List Expr}, anyReadsSite es = false →
    evalAll (.declining σ) env site es = evalAll (.declining σ) env site' es
  | [], _ => rfl
  | e :: es, h => by
      obtain ⟨he, hes⟩ := Bool.or_eq_false_iff.mp h
      rw [evalAll, eval_congr he, evalAll_congr hes, evalAll]

end

end Expr

/-! ## Values that the host has no part in -/

/-- A computation that leaves the host alone. -/
def Hosted.HostFree {ε α : Type} (x : Hosted σ ε α) : Prop :=
  ∃ r : Except ε α, x = .ofExcept r

theorem Hosted.HostFree.bind {ε α β : Type} {x : Hosted σ ε α} {f : α → Hosted σ ε β}
    (hx : x.HostFree) (hf : ∀ a, (f a).HostFree) : (x >>= f).HostFree := by
  obtain ⟨r, rfl⟩ := hx
  cases r with
  | error e => exact ⟨.error e, rfl⟩
  | ok a => exact hf a

namespace Expr

variable (env : Environment) (site : Site)

mutual

theorem eval_hostFree : ∀ e : Expr, (e.eval (.declining σ) env site).HostFree
  | literal v => ⟨.ok v, rfl⟩
  | .name s => ⟨env.resolve s site, by rw [eval]⟩
  | unary op operand => by
      rw [eval]
      exact (eval_hostFree operand).bind fun v => ⟨op.apply v, rfl⟩
  | binary op left right => by
      rw [eval]
      refine (eval_hostFree left).bind fun l => ?_
      split
      · exact (eval_hostFree right).bind fun r => ⟨op.apply l r, rfl⟩
      · split
        · exact ⟨_, rfl⟩
        · split
          · exact ⟨_, rfl⟩
          · refine (eval_hostFree right).bind fun r => ?_
            split <;> exact ⟨_, rfl⟩
  | call s args => by
      rw [eval]
      split
      · exact ⟨_, rfl⟩
      · split
        · rename_i f _
          exact (evalAll_hostFree args).bind fun vs => ⟨f.apply vs, rfl⟩
        · exact ⟨.error (.unknownFunction s args.length), rfl⟩
  | set items => by
      rw [eval]
      exact (evalAll_hostFree items).bind fun vs => ⟨_, rfl⟩

theorem evalAll_hostFree : ∀ es : List Expr, (evalAll (.declining σ) env site es).HostFree
  | [] => ⟨.ok [], rfl⟩
  | e :: es => by
      rw [evalAll]
      exact (eval_hostFree e).bind fun v => (evalAll_hostFree es).bind fun vs => ⟨_, rfl⟩

end

end Expr

theorem evaluate_hostFree (env : Environment) (site : Site) (s : String) :
    (evaluate (.declining σ) env site s).HostFree := by
  unfold evaluate
  split
  · exact Expr.eval_hostFree env site _
  · exact ⟨_, rfl⟩

theorem EngineM.engine_of_value {site : Site} {s : String} {e e' : Engine σ}
    {r : Except Fault Value} (h : (value (.declining σ) site s).run e = (r, e')) : e' = e := by
  obtain ⟨r', hr'⟩ := evaluate_hostFree (σ := σ) e.env site s
  have he : ((evaluate (.declining σ) e.env site s).withError Fault.eval).run e.host =
      (r'.mapError Fault.eval, e.host) := by
    rw [hr']
    cases r' <;> rfl
  unfold value ofHosted at h
  rw [ExceptT.run_mk] at h
  dsimp only at h
  rw [he] at h
  cases h
  rfl

/-! ## Texts -/

/-- Whether the expression that a text holds reads the place it stands at. -/
def readsSite (s : String) : Bool :=
  match Expr.parse s with
  | .ok e => e.readsSite
  | .error _ => false

theorem evaluate_congr {s : String} {site site' : Site} (h : readsSite s = true → site = site')
    (env : Environment) :
    evaluate (.declining σ) env site s = evaluate (.declining σ) env site' s := by
  cases hreads : readsSite s with
  | true => rw [h hreads]
  | false =>
      unfold readsSite at hreads
      unfold evaluate
      split
      · rename_i e hparse
        rw [hparse] at hreads
        exact Expr.eval_congr env site site' hreads
      · rfl

/-! ## Markers -/

namespace Inline

/-- The expressions of the markers of a line. -/
def expressions (cs : List Char) : List String :=
  match _hopen : Text.cut openMark cs with
  | none => []
  | some (_, rest) =>
    match _hclose : Text.cut closeMark rest with
    | none => []
    | some (expr, after) => String.ofList (Text.trim expr) :: expressions (dropDefault after)
termination_by cs.length
decreasing_by
  have h₁ := Text.length_of_cut _hopen
  have h₂ := Text.length_of_cut _hclose
  have h₃ := length_dropDefault_le after
  simp only [openMark, closeMark, List.length_cons, List.length_nil] at h₁ h₂
  omega

/-- Only the values of the expressions of its markers matter to a line. -/
theorem substituteChars_congr {value value' : String → Hosted σ Fault String} {cs : List Char}
    (h : ∀ expr ∈ expressions cs, value expr = value' expr) :
    substituteChars value cs = substituteChars value' cs := by
  fun_induction expressions cs with
  | case1 cs hopen => rw [substituteChars_of_unmarked hopen, substituteChars_of_unmarked hopen]
  | case2 cs before rest hopen hclose =>
      rw [substituteChars_of_unclosed hopen hclose, substituteChars_of_unclosed hopen hclose]
  | case3 cs before rest hopen expr after hclose ih =>
      obtain ⟨hexpr, hmore⟩ := List.forall_mem_cons.mp h
      rw [substituteChars_of_closed hopen hclose, substituteChars_of_closed hopen hclose, hexpr,
        ih hmore]

end Inline

/-! ## Lines -/

/-- Whether a text has a marker whose expression reads the place it stands at. -/
def Inline.readsSite (s : String) : Bool :=
  (expressions s.toList).any Preprocessor.readsSite

def Directive.readsSite : Directive → Bool
  | ifTrue expr | elseIf expr | excludeIf expr | includeFile expr | outname expr | error expr
  | warning expr | echo expr => Preprocessor.readsSite expr
  | define _ expr => expr.any Preprocessor.readsSite
  | action args =>
    match Expr.parseList args with
    | .ok exprs => Expr.anyReadsSite exprs
    | .error _ => false
  | _ => false

/-- Whether a line has an expression that reads the place it stands at. -/
def LineKind.readsSite (content : String) : Bool :=
  match LineKind.classify content with
  | .ok (.directive d) => d.readsSite
  | .ok .text => Inline.readsSite content
  | .ok (.toggle _ body raw) => !raw && Inline.readsSite body
  | .error _ => false

namespace EngineM

variable {site site' : Site}

theorem value_congr {s : String} (h : readsSite s = true → site = site') :
    value (.declining σ) site s = value (.declining σ) site' s := by
  simp only [value, evaluate_congr h]

theorem substituted_congr {s : String} (h : Inline.readsSite s = true → site = site') :
    substituted (.declining σ) site s = substituted (.declining σ) site' s := by
  have hvalue (env : Environment) : ∀ expr ∈ Inline.expressions s.toList,
      (Value.text <$> (evaluate (.declining σ) env site expr).withError Fault.eval) =
        Value.text <$> (evaluate (.declining σ) env site' expr).withError Fault.eval := by
    intro expr hexpr
    rw [evaluate_congr fun hreads => h (List.any_eq_true.mpr ⟨expr, hexpr, hreads⟩)]
  simp only [substituted, Inline.substitute, Inline.substituteChars_congr (hvalue _)]

theorem action_congr {args : String} (h : (Directive.action args).readsSite = true → site = site') :
    action (.declining σ) site args = action (.declining σ) site' args := by
  cases hreads : (Directive.action args).readsSite with
  | true => rw [h hreads]
  | false =>
      unfold action
      cases hparse : Expr.parseList args with
      | error err => rfl
      | ok exprs =>
          have hexprs : Expr.anyReadsSite exprs = false := by
            simpa only [Directive.readsSite, hparse] using hreads
          simp only [Expr.evalAll_congr _ site site' hexprs]
          rfl

end EngineM

end Preprocessor
