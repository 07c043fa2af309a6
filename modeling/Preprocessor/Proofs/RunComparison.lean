/-
Two runs side by side.

The comparison of two evaluations goes on to engines, lines and whole runs.  If the two differ in
what their hosts keep and in the rule for unknown names alone, then the second run ends as the first
does, with the same variables, output name and log, unless the first finds a name unknown; and if a
name is unknown in the second, which takes it for false, then its host has said so.

The relation between the two runs has one excuse, which is carried through every construct: as soon
as the first run finds a name unknown, nothing more is said of the second.
-/
import Preprocessor.Proofs.LineMirroring
import Preprocessor.Proofs.Provenance
import Preprocessor.Proofs.ValueComparison

namespace Preprocessor

variable {σ σ' α : Type}

namespace Comparison

variable {k : Comparison σ σ'}

/-! ## Engines -/

theorem tracks_withError {x : Hosted σ EvalError α} {y : Hosted σ' EvalError α}
    (h : k.values.Tracks x y) : k.hosted.Tracks (x.withError .eval) (y.withError .eval) where
  follows {s s' r s₁} hs hrun hexcused := by
    rcases hx : x.run s with ⟨err | a, s₂⟩
    · rw [Hosted.withError, ExceptT.run_mk, hx] at hrun
      cases hrun
      have hown : k.values.Unexcused (.error err : Except EvalError α) :=
        Contrast.unexcused_error (hexcused (.eval err) rfl)
      obtain ⟨s₂', hy, hs₂⟩ := h.follows hs hx hown
      exact ⟨s₂', by rw [Hosted.withError, ExceptT.run_mk, hy], hs₂⟩
    · rw [Hosted.withError, ExceptT.run_mk, hx] at hrun
      cases hrun
      obtain ⟨s₂', hy, hs₂⟩ := h.follows hs hx (Contrast.unexcused_ok a)
      exact ⟨s₂', by rw [Hosted.withError, ExceptT.run_mk, hy], hs₂⟩
  reports {s' r s₁'} hs hrun := by
    refine ⟨trivial, fun fault hfault hexcused => ?_⟩
    rcases hy : y.run s' with ⟨err | a, s₂'⟩
    · rw [Hosted.withError, ExceptT.run_mk, hy] at hrun
      cases hrun
      cases hfault
      exact ⟨err, rfl, (h.reports hs hy).2 err rfl hexcused⟩
    · rw [Hosted.withError, ExceptT.run_mk, hy] at hrun
      cases hrun
      cases hfault

theorem tracks_ofHosted {x : Environment → Hosted σ Fault α}
    {y : Environment → Hosted σ' Fault α}
    (h : ∀ {env env'}, k.Environments env env' → k.hosted.Tracks (x env) (y env')) :
    k.engines.Tracks (EngineM.ofHosted x) (EngineM.ofHosted y) where
  follows {e e' r e₁} he hrun hexcused := by
    rcases hx : (x e.env).run e.host with ⟨r₁, host⟩
    rw [EngineM.ofHosted, ExceptT.run_mk, hx] at hrun
    cases hrun
    obtain ⟨host', hy, hhost⟩ := (h he.env).follows he.host hx hexcused
    refine ⟨{ e' with host := host' }, ?_, ⟨he.env, hhost, he.outname, he.log⟩⟩
    rw [EngineM.ofHosted, ExceptT.run_mk, hy]
  reports {e' r e₁'} he hrun := by
    rcases hy : (y e'.env).run e'.host with ⟨r₁, host'⟩
    rw [EngineM.ofHosted, ExceptT.run_mk, hy] at hrun
    cases hrun
    exact ⟨he, ((h (.ofSecond he)).reports trivial hy).2⟩

/-- Writes to variables look at the layers alone, and find no name unknown. -/
def RewritesLayers (f : Environment → Except EvalError Environment) : Prop :=
  ∃ g : List Layer → Except EvalError (List Layer), ∀ layers,
    (∀ b, f ⟨layers, b⟩ = (g layers).map (⟨·, b⟩)) ∧
      ∀ err, g layers = .error err → err.kind ≠ .unknownVariable

theorem rewritesLayers_assign (name : String) (v : Value) :
    RewritesLayers (·.assign name v) := by
  refine ⟨fun layers => ((⟨layers, false⟩ : Environment).assign name v).map (·.layers),
    fun layers => ?_⟩
  simp only [Environment.assign, Environment.notWritable]
  rcases Environment.splitWritable layers with _ | ⟨before, found, after⟩
  · exact ⟨fun b => rfl, fun err herr => by cases herr; exact DiagnosticKind.noConfusion⟩
  · cases found with
    | store label vars => exact ⟨fun b => rfl, fun err herr => by cases herr⟩
    | _ => exact ⟨fun b => rfl, fun err herr => by cases herr; exact DiagnosticKind.noConfusion⟩

theorem rewritesLayers_remove (name : String) :
    RewritesLayers fun env => (env.remove name).map (·.2) := by
  refine ⟨fun layers => ((⟨layers, false⟩ : Environment).remove name).map (·.2.layers),
    fun layers => ?_⟩
  simp only [Environment.remove, Environment.notWritable]
  rcases Environment.splitWritable layers with _ | ⟨before, found, after⟩
  · exact ⟨fun b => rfl, fun err herr => by cases herr; exact DiagnosticKind.noConfusion⟩
  · cases found with
    | store label vars => exact ⟨fun b => rfl, fun err herr => by cases herr⟩
    | _ => exact ⟨fun b => rfl, fun err herr => by cases herr; exact DiagnosticKind.noConfusion⟩

theorem tracks_change {f : Environment → Except EvalError Environment} (hf : RewritesLayers f) :
    k.engines.Tracks (EngineM.change f) (EngineM.change f) := by
  obtain ⟨g, hg⟩ := hf
  refine ⟨fun {e e' r e₁} he hrun hexcused => ?_, fun {e' r e₁'} he hrun => ?_⟩
  · have hfirst := (hg e.env.layers).1 e.env.unknownAsFalse
    have hsecond : f e'.env = (g e.env.layers).map (⟨·, e'.env.unknownAsFalse⟩) := by
      rw [← he.env.layers]
      exact (hg e'.env.layers).1 e'.env.unknownAsFalse
    cases hlayers : g e.env.layers with
    | error err =>
        rw [hlayers] at hfirst hsecond
        rw [EngineM.run_change_of_error hfirst] at hrun
        cases hrun
        exact ⟨e', EngineM.run_change_of_error hsecond, he⟩
    | ok layers =>
        rw [hlayers] at hfirst hsecond
        rw [EngineM.run_change_of_ok hfirst] at hrun
        cases hrun
        exact ⟨_, EngineM.run_change_of_ok hsecond,
          ⟨⟨rfl, he.env.policy, he.env.policy'⟩, he.host, he.outname, he.log⟩⟩
  · obtain ⟨hchange, hkind⟩ := hg e'.env.layers
    have hsecond := hchange e'.env.unknownAsFalse
    cases hlayers : g e'.env.layers with
    | error err =>
        rw [hlayers] at hsecond
        rw [EngineM.run_change_of_error hsecond] at hrun
        cases hrun
        refine ⟨he, fun fault hfault hexcused => ?_⟩
        cases hfault
        exact absurd hexcused.2 (hkind err hlayers)
    | ok layers =>
        rw [hlayers] at hsecond
        rw [EngineM.run_change_of_ok hsecond] at hrun
        cases hrun
        exact ⟨he, fun fault hfault => by cases hfault⟩

variable (site : Site)

theorem tracks_value (s : String) :
    k.engines.Tracks (EngineM.value k.first site s) (EngineM.value k.second site s) :=
  tracks_ofHosted fun henv => tracks_withError (tracks_evaluate henv site s)

theorem tracks_string (keyword s : String) :
    k.engines.Tracks (EngineM.string k.first site keyword s)
      (EngineM.string k.second site keyword s) := by
  refine (tracks_value site s).bind fun v => ?_
  cases v with
  | str text => exact .pure text
  | _ => exact .throw (k.not_excused DiagnosticKind.noConfusion)

theorem tracks_condition (s : String) :
    k.engines.Tracks (EngineM.condition k.first site s) (EngineM.condition k.second site s) := by
  refine (tracks_value site s).bind fun v => ?_
  cases v with
  | bool b => exact .pure b
  | _ => exact .throw (k.not_excused DiagnosticKind.noConfusion)

theorem tracks_substituteChars {value : String → Hosted σ Fault String}
    {value' : String → Hosted σ' Fault String}
    (h : ∀ s, k.hosted.Tracks (value s) (value' s)) (cs : List Char) :
    k.hosted.Tracks (Inline.substituteChars value cs) (Inline.substituteChars value' cs) := by
  fun_induction Inline.substituteChars value cs with
  | case1 cs hopen =>
      rw [Inline.substituteChars_of_unmarked hopen]
      exact .pure cs
  | case2 cs before rest hopen hclose =>
      rw [Inline.substituteChars_of_unclosed hopen hclose]
      exact .throw (k.not_excused DiagnosticKind.noConfusion)
  | case3 cs before rest hopen expr after hclose ih =>
      rw [Inline.substituteChars_of_closed hopen hclose]
      exact (h _).bind fun inserted => ih.bind fun more => .pure _

theorem tracks_substituted (s : String) :
    k.engines.Tracks (EngineM.substituted k.first site s)
      (EngineM.substituted k.second site s) := by
  refine tracks_ofHosted fun {env env'} henv => ?_
  have hvalue (expr : String) : k.hosted.Tracks
      (Value.text <$> (evaluate k.first env site expr).withError Fault.eval)
      (Value.text <$> (evaluate k.second env' site expr).withError Fault.eval) :=
    (tracks_withError (tracks_evaluate henv site expr)).bind fun v => .pure v.text
  exact (tracks_substituteChars hvalue s.toList).bind fun cs => .pure (String.ofList cs)

theorem tracks_define (name : String) (expr : Option String) :
    k.engines.Tracks (EngineM.define k.first site name expr)
      (EngineM.define k.second site name expr) := by
  cases expr with
  | some s =>
      exact (tracks_value site s).bind fun v => tracks_change (rewritesLayers_assign name v)
  | none =>
      exact (Contrast.Tracks.pure _).bind fun v => tracks_change (rewritesLayers_assign name v)

theorem tracks_takesAction (arity : Nat) :
    k.engines.Tracks (EngineM.ofHosted fun _ => .ask (k.first.takesAction · arity))
      (EngineM.ofHosted fun _ => .ask (k.second.takesAction · arity)) :=
  tracks_ofHosted fun _ => .ask fun _ _ hs => k.simulates.takesAction hs arity

theorem tracks_act (args : List Value) :
    k.engines.Tracks (EngineM.ofHosted fun _ => .act k.first site args)
      (EngineM.ofHosted fun _ => .act k.second site args) := by
  refine tracks_ofHosted fun _ => ⟨fun {s s' r s₁} hs hrun _ => ?_, fun {s' r s₁'} hs hrun => ?_⟩
  · obtain ⟨hresult, hstate⟩ := k.simulates.act hs site args
    cases hrun
    exact ⟨(k.second.act site args s').2, Prod.ext (congrArg Except.ok hresult) rfl, hstate⟩
  · cases hrun
    exact ⟨trivial, fun fault hfault => by cases hfault⟩

theorem tracks_action (args : String) :
    k.engines.Tracks (EngineM.action k.first site args) (EngineM.action k.second site args) := by
  unfold EngineM.action
  cases Expr.parseList args with
  | error err => exact .throw (k.not_excused DiagnosticKind.noConfusion)
  | ok exprs =>
      have hvalues := tracks_ofHosted fun henv =>
        tracks_withError (k := k) (tracks_evalAll henv site exprs)
      refine hvalues.bind fun values => ?_
      refine (tracks_takesAction values.length).bind fun taken => ?_
      cases taken with
      | false => exact .throw (k.not_excused DiagnosticKind.noConfusion)
      | true =>
          refine (tracks_act site values).bind fun accepted => ?_
          cases accepted with
          | false => exact .throw (k.not_excused DiagnosticKind.noConfusion)
          | true => exact .pure ()

theorem tracks_record (level : Level) (message : String) :
    k.engines.Tracks (EngineM.record level message) (EngineM.record level message) := by
  refine .modify (fun e e' he => ⟨he.env, he.host, he.outname, ?_⟩) fun e' he => he
  show e'.log.push _ = e.log.push _
  rw [he.log]

/-! ## Lines -/

theorem tracks_toLine {x : EngineM σ α} {y : EngineM σ' α} (h : k.engines.Tracks x y) :
    k.lines.Tracks x.toLine y.toLine where
  follows {p p' r p₁} hp hrun hexcused := by
    rcases hx : x.run p.2 with ⟨r₁, e₁⟩
    rw [run_toLine hx] at hrun
    cases hrun
    obtain ⟨e₁', hy, he₁⟩ := h.follows hp.2 hx hexcused
    exact ⟨(p'.1, e₁'), run_toLine hy p'.1, hp.1, he₁⟩
  reports {p' r p₁'} hp hrun := by
    rcases hy : y.run p'.2 with ⟨r₁, e₁'⟩
    rw [run_toLine hy] at hrun
    cases hrun
    exact h.reports hp hy

theorem tracks_scope :
    k.lines.Tracks (LineM.scope : LineM σ Scope) (LineM.scope : LineM σ' Scope) :=
  .ask (f := fun p : Scope × Engine σ => p.1) (g := fun p : Scope × Engine σ' => p.1)
    fun _ _ hp => hp.1

theorem tracks_isDefined (name : String) :
    k.lines.Tracks (LineM.isDefined site name : LineM σ Bool)
      (LineM.isDefined site name : LineM σ' Bool) :=
  .ask (f := fun p : Scope × Engine σ => p.2.env.isDefined name site)
    (g := fun p : Scope × Engine σ' => p.2.env.isDefined name site)
    fun _ _ hp => hp.2.env.isDefined name site

theorem tracks_changeScope (f : Scope → Scope) :
    k.lines.Tracks (LineM.changeScope f : LineM σ Unit) (LineM.changeScope f : LineM σ' Unit) :=
  .modify (fun _ _ hp => ⟨congrArg f hp.1, hp.2⟩) fun _ hp => hp

theorem tracks_emit (text : String) :
    k.lines.Tracks (LineM.emit text : LineM σ Step) (LineM.emit text : LineM σ' Step) :=
  tracks_scope.bind fun _ => (tracks_changeScope _).bind fun _ => .pure _

theorem tracks_settle (pending : Conditions.Pending) {x : LineM σ Bool} {y : LineM σ' Bool}
    (h : k.lines.Tracks x y) :
    k.lines.Tracks (LineM.settle pending x) (LineM.settle pending y) := by
  cases pending with
  | settled c => exact tracks_changeScope fun s => { s with conditions := c }
  | asks next => exact h.bind fun b => tracks_changeScope fun s => { s with conditions := next b }

theorem tracks_blocks {r : Except Fault α} (h : FaultsIn Fault.isOfBlocks r) :
    k.lines.Tracks (LineM.conditional.liftExcept r : LineM σ α)
      (LineM.conditional.liftExcept r : LineM σ' α) := by
  refine .result (fun _ => rfl) fun fault hfault => k.not_excused ?_
  rw [Fault.kind_of_isOfBlocks (h fault hfault)]
  exact DiagnosticKind.noConfusion

theorem tracks_conditional (d : Directive) :
    k.lines.Tracks (LineM.conditional k.first site d) (LineM.conditional k.second site d) := by
  have hcondition (expr : String) := tracks_toLine (tracks_condition (k := k) site expr)
  refine tracks_scope.bind fun s => ?_
  cases d with
  | ifTrue expr => exact (tracks_settle _ (hcondition expr)).bind fun _ => .pure _
  | ifDefined name => exact (tracks_settle _ (tracks_isDefined site name)).bind fun _ => .pure _
  | ifNotDefined name =>
      exact (tracks_settle _ ((tracks_isDefined site name).bind fun _ => .pure _)).bind
        fun _ => .pure _
  | elseIf expr =>
      exact (tracks_blocks s.conditions.faults_elseIf).bind fun pending =>
        (tracks_settle pending (hcondition expr)).bind fun _ => .pure _
  | otherwise =>
      exact (tracks_blocks s.conditions.faults_otherwise).bind fun _ =>
        (tracks_changeScope _).bind fun _ => .pure _
  | endIf =>
      exact (tracks_blocks s.conditions.faults_close).bind fun _ =>
        (tracks_changeScope _).bind fun _ => .pure _
  | _ => exact .pure _

theorem tracks_plain (d : Directive) :
    k.lines.Tracks (LineM.plain k.first site d) (LineM.plain k.second site d) := by
  have hvalue (expr : String) := tracks_toLine (tracks_value (k := k) site expr)
  have hstring (keyword expr : String) := tracks_toLine (tracks_string (k := k) site keyword expr)
  cases d with
  | excludeIf expr =>
      refine (tracks_toLine (tracks_condition site expr)).bind fun b => ?_
      cases b with
      | true => exact (tracks_changeScope _).bind fun _ => .pure _
      | false => exact .pure _
  | define name expr =>
      exact (tracks_toLine (tracks_define site name expr)).bind fun _ => .pure _
  | undefine name =>
      exact (tracks_toLine (tracks_change (rewritesLayers_remove name))).bind fun _ => .pure _
  | defineGlobal name expr => exact .throw (k.not_excused DiagnosticKind.noConfusion)
  | includeFile expr => exact (hstring _ expr).bind fun _ => .pure _
  | action args => exact (tracks_toLine (tracks_action site args)).bind fun _ => .pure _
  | outname expr =>
      refine (hstring _ expr).bind fun name => ?_
      dsimp only
      split
      · exact .throw (k.not_excused DiagnosticKind.noConfusion)
      · refine Contrast.Tracks.bind (.modify (fun p p' hp => ?_) fun p' hp => hp) fun _ => .pure _
        exact ⟨hp.1, hp.2.env, hp.2.host, rfl, hp.2.log⟩
  | error expr =>
      exact (hvalue expr).bind fun _ => .throw (k.not_excused DiagnosticKind.noConfusion)
  | warning expr =>
      exact (hvalue expr).bind fun _ => (tracks_toLine (tracks_record _ _)).bind fun _ => .pure _
  | echo expr =>
      exact (hvalue expr).bind fun _ => (tracks_toLine (tracks_record _ _)).bind fun _ => .pure _
  | outputOff => exact (tracks_changeScope _).bind fun _ => .pure _
  | outputOn => exact (tracks_changeScope _).bind fun _ => .pure _
  | commentNext => exact (tracks_changeScope _).bind fun _ => .pure _
  | unknown text => exact .throw (k.not_excused DiagnosticKind.noConfusion)
  | _ => exact .pure _

theorem tracks_line (content : String) :
    k.lines.Tracks (LineM.line k.first site content) (LineM.line k.second site content) := by
  have hsubstituted (s : String) := tracks_toLine (tracks_substituted (k := k) site s)
  refine tracks_scope.bind fun s => ?_
  split
  · exact .pure _
  · refine tracks_scope.bind fun s => ?_
    cases hkind : LineKind.classify content with
    | error fault =>
        refine .throw (k.not_excused ?_)
        rw [Fault.kind_of_isOfText (LineKind.faults_classify content fault hkind)]
        exact DiagnosticKind.noConfusion
    | ok kind =>
        cases kind with
        | text =>
            dsimp only
            split
            · exact (hsubstituted content).bind tracks_emit
            · exact .pure _
        | toggle indent body raw =>
            dsimp only
            split
            · cases raw with
              | true => exact tracks_emit _
              | false => exact (hsubstituted body).bind fun _ => tracks_emit _
            · exact .pure _
        | directive d =>
            dsimp only
            split
            · exact tracks_conditional site d
            · split
              · exact tracks_plain site d
              · exact .pure _

/-! ## Whole runs -/

open Source

variable {site} (t : FileTree) (options : Options)

theorem tracks_followLine (trail : Trail) (site : Site) (content : String) (scope : Scope) :
    k.runs.Tracks (followLine k.first trail site content scope)
      (followLine k.second trail site content scope) where
  follows {e e' r e₁} he hrun hexcused := by
    have hstart : k.lines.related (scope, e) (scope, e') := ⟨rfl, he⟩
    rcases hline : e.processLine k.first site content scope with ⟨fault | step, scope₁, e₂⟩
    · rw [run_followLine_of_error trail hline] at hrun
      cases hrun
      have hown : k.lines.Unexcused (.error fault : Except Fault Step) :=
        Contrast.unexcused_error (hexcused _ rfl)
      obtain ⟨p', hline', hp⟩ := (tracks_line site content).follows hstart hline hown
      exact ⟨p'.2, run_followLine_of_error trail hline', hp.2⟩
    · rw [run_followLine_of_ok trail hline] at hrun
      cases hrun
      obtain ⟨⟨scope₁', e₂'⟩, hline', hscope, he₂⟩ :=
        (tracks_line site content).follows hstart hline (Contrast.unexcused_ok step)
      cases hscope
      exact ⟨e₂', run_followLine_of_ok trail hline', he₂⟩
  reports {e' r e₁'} he hrun := by
    have hstart : k.lines.kept (scope, e') := he
    rcases hline : e'.processLine k.second site content scope with ⟨fault | step, scope₁, e₂⟩
    · obtain ⟨hkept, hblamed⟩ := (tracks_line site content).reports hstart hline
      rw [run_followLine_of_error trail hline] at hrun
      cases hrun
      refine ⟨hkept, fun d hd hexcused => ?_⟩
      cases hd
      exact hblamed fault rfl hexcused
    · obtain ⟨hkept, -⟩ := (tracks_line site content).reports hstart hline
      rw [run_followLine_of_ok trail hline] at hrun
      cases hrun
      exact ⟨hkept, fun d hd => by cases hd⟩

theorem kind_ne_of_openInclude {t : FileTree} {options : Options} {trail : Trail} {path : Path}
    {target : String} {fault : Fault} (h : openInclude t options trail path target = .error fault) :
    fault.kind ≠ .unknownVariable := by
  unfold openInclude findInclude at h
  cases hfind : (candidates options path target).find? t.isFile with
  | none =>
      rw [hfind] at h
      cases h
      exact DiagnosticKind.noConfusion
  | some found =>
      rw [hfind] at h
      dsimp only at h
      split at h
      · cases h
        exact DiagnosticKind.noConfusion
      · cases h

variable {t options}

theorem tracks_followLines {descend : Trail → Path → Output → RunM σ Output}
    {descend' : Trail → Path → Output → RunM σ' Output}
    (h : ∀ trail path out, k.runs.Tracks (descend trail path out) (descend' trail path out))
    (trail : Trail) (path : Path) (index : Nat) (lines : List Line) (scope : Scope)
    (out : Output) :
    k.runs.Tracks (followLines k.first t options descend trail path index lines scope out)
      (followLines k.second t options descend' trail path index lines scope out) := by
  induction lines generalizing trail index scope out with
  | nil => exact .pure _
  | cons line rest ih =>
      refine (tracks_followLine _ _ _ _).bind fun next => ?_
      rcases next with ⟨step, scope₁⟩
      cases step with
      | emit text => exact ih _ _ _ _
      | skip => exact ih _ _ _ _
      | exclude => exact .pure _
      | includeFile target =>
          dsimp only
          cases hopen : openInclude t options (trail.atLine index) path target with
          | error fault => exact .throw (k.not_excused (kind_ne_of_openInclude hopen))
          | ok included => exact (h _ _ _).bind fun out₁ => ih _ _ _ _

variable (t options)

theorem tracks_process (room : Nat) (trail : Trail) (path : Path) (out : Output) :
    k.runs.Tracks (process k.first t options room trail path out)
      (process k.second t options room trail path out) := by
  induction room generalizing trail path out with
  | zero => exact .throw (k.not_excused DiagnosticKind.noConfusion)
  | succ room ih =>
      have hdescend (trail : Trail) (path : Path) (out : Output) :
          k.runs.Tracks (descendWithin k.first t options room trail path out)
            (descendWithin k.second t options room trail path out) :=
        (ih trail path out).bind fun _ => .pure _
      rw [process_succ, process_succ]
      unfold processWith
      cases hread : readText t options path with
      | error fault =>
          obtain ⟨cause, hcause⟩ := exists_of_readText_error hread
          subst hcause
          exact .throw (k.not_excused DiagnosticKind.noConfusion)
      | ok decoded =>
          refine (tracks_followLines hdescend _ _ _ _ _ _).bind fun result => ?_
          rcases result with ⟨fileEnd, scope, out⟩
          dsimp only
          split
          · exact .throw (k.not_excused DiagnosticKind.noConfusion)
          · exact .pure _

/-- The second run ends as the first unless a name is unknown in it, and the host is to blame for
a name that is unknown in the second. -/
theorem tracks_preprocess (root : Path) :
    k.runs.Tracks (preprocess k.first t options root) (preprocess k.second t options root) := by
  refine (tracks_process t options _ _ _ _).bind fun result => ?_
  rcases result with ⟨fileEnd, bom, out⟩
  dsimp only
  split
  · exact .pure _
  · cases hfinish : finish options root out.text with
    | error d =>
        obtain ⟨-, err, -, hd⟩ := exists_of_finish_error hfinish
        subst hd
        exact .throw (k.not_excused DiagnosticKind.noConfusion)
    | ok text =>
        exact .ask (f := fun e : Engine σ => Outcome.text text bom e.outname)
          (g := fun e : Engine σ' => Outcome.text text bom e.outname)
          fun _ _ he => congrArg (Outcome.text text bom) he.outname

end Comparison

end Preprocessor
