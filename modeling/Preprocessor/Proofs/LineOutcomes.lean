/-
What a line can end in.

A line asks for a file only if it reads as an `include` directive, and the file it asks for is
the value of its expression.  A line that fails does so with a fault of its own: that a block is
never closed, that a file cannot be read and that the output holds an open comment are said of a
whole file and never by a line.  Where the fault comes from tells its kind: only a directive that
does not fit the open blocks is unbalanced, and a text that does not read as a directive is
malformed.
-/
import Preprocessor.Proofs.LineSteps

namespace Preprocessor

variable {σ τ α β : Type}

namespace Fault

variable {fault : Fault}

def isOfLine : Fault → Bool
  | unclosedIf _ | unterminatedComment _ | file _ _ => false
  | _ => true

def isOfText : Fault → Bool
  | needsExpression _ | needsName _ | needsSingleName _ | unexpectedText _ _
  | expectedEquals _ _ _ | missingValue _ _ => true
  | _ => false

/-- Whether a fault says that a directive does not fit the open blocks. -/
def isOfBlocks : Fault → Bool
  | elifWithoutIf | elifAfterElse | elseWithoutIf | duplicateElse | endifWithoutIf => true
  | _ => false

/-- Whether a fault is one of what a line does once it is read and fits the open blocks. -/
def isOfEffect : Fault → Bool
  | unterminatedMarker | unknownDirective _ | eval _ | notAString _ _ | notACondition _
  | globalOutside _ | emptyOutname | user _ | noActionHandler _ | actionRejected => true
  | _ => false

theorem isOfLine_of_isOfText (h : fault.isOfText = true) : fault.isOfLine = true := by
  cases fault <;> cases h <;> rfl

theorem isOfLine_of_isOfBlocks (h : fault.isOfBlocks = true) : fault.isOfLine = true := by
  cases fault <;> cases h <;> rfl

theorem isOfLine_of_isOfEffect (h : fault.isOfEffect = true) : fault.isOfLine = true := by
  cases fault <;> cases h <;> rfl

theorem kind_of_isOfText (h : fault.isOfText = true) : fault.kind = .malformed := by
  cases fault <;> cases h <;> rfl

theorem kind_of_isOfBlocks (h : fault.isOfBlocks = true) : fault.kind = .unbalanced := by
  cases fault <;> cases h <;> rfl

theorem kind_ne_of_isOfEffect (h : fault.isOfEffect = true) : fault.kind ≠ .unbalanced := by
  cases fault with
  | eval e => cases e <;> exact nofun
  | _ => cases h <;> exact nofun

end Fault

/-! ## Which faults a result can have -/

/-- If the result is a fault, then one of which `p` holds. -/
def FaultsIn (p : Fault → Bool) (r : Except Fault α) : Prop :=
  ∀ fault, r = .error fault → p fault = true

namespace FaultsIn

variable {p : Fault → Bool}

theorem ok (a : α) : FaultsIn p (.ok a) :=
  nofun

theorem error {fault : Fault} (h : p fault = true) : FaultsIn p (.error fault : Except _ α) := by
  intro fault' hfault
  cases hfault
  exact h

theorem map {r : Except Fault α} (h : FaultsIn p r) (f : α → β) : FaultsIn p (r.map f) := by
  cases r with
  | ok a => exact ok (f a)
  | error fault => exact error (h fault rfl)

theorem ite {c : Prop} [Decidable c] {r r' : Except Fault α} (h : FaultsIn p r)
    (h' : FaultsIn p r') : FaultsIn p (if c then r else r') := by
  split
  · exact h
  · exact h'

end FaultsIn

/-! ## Which faults and values a computation can have -/

/-- The values of a computation are as `post` says, and its faults as `p` does. -/
structure Ensures (p : Fault → Bool) (post : α → Prop) (x : ExceptT Fault (StateM τ) α) :
    Prop where
  value : ∀ {s a s'}, x.run s = (.ok a, s') → post a
  fault : ∀ {s fault s'}, x.run s = (.error fault, s') → p fault = true

namespace Ensures

variable {p : Fault → Bool} {post : α → Prop}

theorem pure {a : α} (h : post a) : Ensures p post (pure a : ExceptT Fault (StateM τ) α) where
  value hrun := by
    cases hrun
    exact h
  fault hrun := by cases hrun

theorem throw {fault : Fault} (h : p fault = true) :
    Ensures p post (throw fault : ExceptT Fault (StateM τ) α) where
  value hrun := by cases hrun
  fault hrun := by
    cases hrun
    exact h

theorem ofExcept {r : Except Fault α} (h : FaultsIn p r) :
    Ensures p (fun _ => True) (ExceptT.mk (Pure.pure r) : ExceptT Fault (StateM τ) α) where
  value _ := trivial
  fault hrun := h _ (congrArg Prod.fst hrun)

theorem bind {x : ExceptT Fault (StateM τ) α} {f : α → ExceptT Fault (StateM τ) β}
    {post' : β → Prop} (hx : Ensures p post x) (hf : ∀ a, post a → Ensures p post' (f a)) :
    Ensures p post' (x >>= f) where
  value {s b s'} hrun := by
    rcases hr : x.run s with ⟨r, s₁⟩
    cases r with
    | error fault =>
        rw [run_bind_of_error hr] at hrun
        cases hrun
    | ok a =>
        rw [run_bind_of_ok hr] at hrun
        exact (hf a (hx.value hr)).value hrun
  fault {s fault s'} hrun := by
    rcases hr : x.run s with ⟨r, s₁⟩
    cases r with
    | error fault₁ =>
        rw [run_bind_of_error hr] at hrun
        cases hrun
        exact hx.fault hr
    | ok a =>
        rw [run_bind_of_ok hr] at hrun
        exact (hf a (hx.value hr)).fault hrun

theorem weaken {x : ExceptT Fault (StateM τ) α} {p' : Fault → Bool} {post' : α → Prop}
    (hx : Ensures p post x) (hp : ∀ fault, p fault = true → p' fault = true)
    (h : ∀ a, post a → post' a) : Ensures p' post' x :=
  ⟨fun hrun => h _ (hx.value hrun), fun hrun => hp _ (hx.fault hrun)⟩

theorem seq {x : ExceptT Fault (StateM τ) α} {f : α → ExceptT Fault (StateM τ) β}
    {post' : β → Prop} (hx : Ensures p (fun _ => True) x) (hf : ∀ a, Ensures p post' (f a)) :
    Ensures p post' (x >>= f) :=
  hx.bind fun a _ => hf a

theorem get : Ensures p (fun _ => True) (MonadState.get : ExceptT Fault (StateM τ) τ) where
  value _ := trivial
  fault hrun := by cases hrun

theorem modify (f : τ → τ) :
    Ensures p (fun _ => True) (modify f : ExceptT Fault (StateM τ) PUnit) where
  value _ := trivial
  fault hrun := by cases hrun

theorem withError (x : Hosted τ EvalError α) :
    Ensures Fault.isOfEffect (fun _ => True) (x.withError Fault.eval) where
  value _ := trivial
  fault {s fault s'} hrun := by
    rw [Hosted.withError, ExceptT.run_mk] at hrun
    split at hrun
    · cases hrun
    · cases hrun
      rfl

theorem ofHosted {x : Environment → Hosted σ Fault α}
    (hx : ∀ env, Ensures p (fun _ => True) (x env)) :
    Ensures p (fun _ => True) (EngineM.ofHosted x) where
  value _ := trivial
  fault {e fault e'} hrun := by
    have hfault : ((x e.env).run e.host).1 = .error fault := congrArg Prod.fst hrun
    exact (hx e.env).fault (Prod.ext hfault rfl)

theorem toLine {x : EngineM σ α} (hx : Ensures p (fun _ => True) x) :
    Ensures p (fun _ => True) x.toLine where
  value _ := trivial
  fault {s fault s'} hrun := by
    have hfault : (x.run s.2).1 = .error fault := congrArg Prod.fst hrun
    exact hx.fault (Prod.ext hfault rfl)

end Ensures

/-! ## Engines -/

namespace EngineM

variable (host : Host σ) (site : Site)

theorem ensures_value (s : String) :
    Ensures Fault.isOfEffect (fun _ => True) (value host site s) :=
  .ofHosted fun _ => .withError _

theorem ensures_string (keyword s : String) :
    Ensures Fault.isOfEffect (fun _ => True) (string host site keyword s) := by
  refine (ensures_value host site s).seq fun v => ?_
  cases v with
  | str text => exact .pure trivial
  | _ => exact .throw rfl

theorem ensures_condition (s : String) :
    Ensures Fault.isOfEffect (fun _ => True) (condition host site s) := by
  refine (ensures_value host site s).seq fun v => ?_
  cases v with
  | bool b => exact .pure trivial
  | _ => exact .throw rfl

theorem ensures_substituteChars {value : String → Hosted σ Fault String}
    (hvalue : ∀ s, Ensures Fault.isOfEffect (fun _ => True) (value s)) (cs : List Char) :
    Ensures Fault.isOfEffect (fun _ => True) (Inline.substituteChars value cs) := by
  fun_induction Inline.substituteChars value cs with
  | case1 cs hopen => exact .pure trivial
  | case2 cs before rest hopen hclose => exact .throw rfl
  | case3 cs before rest hopen expr after hclose ih =>
      exact (hvalue _).seq fun _ => ih.seq fun _ => .pure trivial

theorem ensures_substituted (s : String) :
    Ensures Fault.isOfEffect (fun _ => True) (substituted host site s) := by
  have hvalue (env : Environment) (expr : String) : Ensures Fault.isOfEffect (fun _ => True)
      (Value.text <$> (evaluate host env site expr).withError Fault.eval) :=
    (Ensures.withError _).seq fun _ => .pure trivial
  exact .ofHosted fun env =>
    (ensures_substituteChars (hvalue env) s.toList).seq fun _ => .pure trivial

theorem ensures_change (f : Environment → Except EvalError Environment) :
    Ensures Fault.isOfEffect (fun _ => True) (change f : EngineM σ Unit) := by
  refine Ensures.get.seq fun e => ?_
  cases f e.env with
  | ok env => exact .modify _
  | error err => exact .throw rfl

theorem ensures_define (name : String) (expr : Option String) :
    Ensures Fault.isOfEffect (fun _ => True) (define host site name expr) := by
  cases expr with
  | some s => exact (ensures_value host site s).seq fun _ => ensures_change _
  | none => exact (Ensures.pure trivial).seq fun _ => ensures_change _

theorem ensures_action (args : String) :
    Ensures Fault.isOfEffect (fun _ => True) (action host site args) := by
  have hask {ask : Environment → Hosted σ Fault Bool}
      (h : ∀ env s, ∃ b s', (ask env).run s = (.ok b, s')) :
      Ensures Fault.isOfEffect (fun _ => True) (ofHosted ask) := by
    refine .ofHosted fun env => ⟨fun _ => trivial, fun {s _ _} hrun => ?_⟩
    obtain ⟨b, s', hb⟩ := h env s
    rw [hb] at hrun
    cases hrun
  unfold action
  cases Expr.parseList args with
  | error err => exact .throw rfl
  | ok exprs =>
      refine (Ensures.ofHosted fun _ => .withError _).seq fun values => ?_
      refine (hask fun _ _ => ⟨_, _, rfl⟩).seq fun taken => ?_
      cases taken with
      | false => exact .throw rfl
      | true =>
          refine (hask fun _ _ => ⟨_, _, rfl⟩).seq fun accepted => ?_
          cases accepted with
          | false => exact .throw rfl
          | true => exact .pure trivial

end EngineM

/-! ## Lines -/

namespace Directive

variable (keyword : String) (args : List Char)

theorem faults_expression : FaultsIn Fault.isOfText (expression keyword args) :=
  .ite (.error rfl) (.ok _)

theorem faults_singleName : FaultsIn Fault.isOfText (singleName keyword args) :=
  .ite (.ok _) (.error rfl)

theorem faults_noArguments (d : Directive) :
    FaultsIn Fault.isOfText (noArguments keyword args d) :=
  .ite (.ok d) (.error rfl)

theorem faults_assignment : FaultsIn Fault.isOfText (assignment keyword args) := by
  refine .ite (.error rfl) ?_
  split
  · exact .ok _
  · exact .error rfl
  · exact .ite (.error rfl) (.ok _)
  · exact .error rfl

theorem faults_ofKeyword (whole : List Char) :
    FaultsIn Fault.isOfText (ofKeyword keyword args whole) := by
  have hexpression := faults_expression keyword args
  have hname := faults_singleName keyword args
  have hassignment := faults_assignment keyword args
  -- the keywords in their order, and any other
  exact .ite (hexpression.map _) <| .ite (hname.map _) <| .ite (hname.map _) <|
    .ite (hexpression.map _) <| .ite (faults_noArguments keyword args _) <|
    .ite (faults_noArguments keyword args _) <| .ite (hexpression.map _) <|
    .ite (hassignment.map _) <| .ite (hname.map _) <| .ite (hassignment.map _) <|
    .ite (hexpression.map _) <| .ite (hexpression.map _) <| .ite (hexpression.map _) <|
    .ite (hexpression.map _) <| .ite (hexpression.map _) <| .ite (hexpression.map _) <|
    .ok _

theorem faults_ofBody (body : List Char) : FaultsIn Fault.isOfText (ofBody body) := by
  unfold ofBody
  split
  · exact .ok _
  · exact .ite (.ok _) (.ite (.ok _) (.ite (faults_ofKeyword _ _ body) (.ok _)))

end Directive

theorem LineKind.faults_classify (content : String) :
    FaultsIn Fault.isOfText (classify content) := by
  unfold classify
  dsimp only
  split
  · exact (Directive.faults_ofBody _).map _
  · repeat' split
    all_goals exact .ok _

namespace Conditions

theorem faults_elseIf (c : Conditions) : FaultsIn Fault.isOfBlocks c.elseIf := by
  unfold elseIf
  split
  · exact .error rfl
  · exact .ite (.error rfl) (.ite (.ok _) (.ok _))

theorem faults_otherwise (c : Conditions) : FaultsIn Fault.isOfBlocks c.otherwise := by
  unfold otherwise
  split
  · exact .error rfl
  · exact .ite (.error rfl) (.ok _)

theorem faults_close (c : Conditions) : FaultsIn Fault.isOfBlocks c.close := by
  unfold close
  split
  · exact .error rfl
  · exact .ok _

end Conditions

variable (host : Host σ) (site : Site)

/-- Whether a directive goes to a further branch of a block or closes it. -/
def Directive.isContinuing : Directive → Bool
  | elseIf _ | otherwise | endIf => true
  | _ => false

/-- Whether a line goes to a further branch of a block or closes it. -/
def LineKind.isContinuing (content : String) : Bool :=
  match LineKind.classify content with
  | .ok (.directive d) => d.isContinuing
  | _ => false

theorem ensures_settle {p : Fault → Bool} (pending : Conditions.Pending) {x : LineM σ Bool}
    (hx : Ensures p (fun _ => True) x) :
    Ensures p (fun _ => True) (LineM.settle pending x) := by
  cases pending with
  | settled c => exact .modify _
  | asks next => exact hx.seq fun _ => .modify _

/-- A directive that shapes the blocks fails with its condition, or because it continues no block
that it could. -/
theorem ensures_conditional (d : Directive) :
    Ensures (fun fault => fault.isOfEffect || d.isContinuing && fault.isOfBlocks) (· = .skip)
      (LineM.conditional host site d) := by
  have hskip {p : Fault → Bool} : Ensures p (· = .skip) (pure .skip : LineM σ Step) := .pure rfl
  have hscope {p : Fault → Bool} : Ensures p (fun _ => True) (LineM.scope : LineM σ Scope) :=
    Ensures.get.seq fun _ => .pure trivial
  have hdefined {p : Fault → Bool} (name : String) :
      Ensures p (fun _ => True) (LineM.isDefined site name : LineM σ Bool) :=
    Ensures.get.seq fun _ => .pure trivial
  have hcondition {b : Fault → Bool} (expr : String) :
      Ensures (fun fault => fault.isOfEffect || b fault) (fun _ => True)
        (EngineM.condition host site expr).toLine :=
    (EngineM.ensures_condition host site expr).toLine.weaken
      (fun fault h => by simp [h]) fun _ => id
  have hblocks {α : Type} {r : Except Fault α} (h : FaultsIn Fault.isOfBlocks r) :
      FaultsIn (fun fault => fault.isOfEffect || true && fault.isOfBlocks) r :=
    fun fault hfault => by simp [h fault hfault]
  refine hscope.seq fun s => ?_
  cases d with
  | ifTrue expr => exact (ensures_settle _ (hcondition expr)).seq fun _ => hskip
  | ifDefined name => exact (ensures_settle _ (hdefined name)).seq fun _ => hskip
  | ifNotDefined name =>
      exact (ensures_settle _ ((hdefined name).seq fun _ => .pure trivial)).seq fun _ => hskip
  | elseIf expr =>
      exact (Ensures.ofExcept (hblocks s.conditions.faults_elseIf)).seq fun pending =>
        (ensures_settle pending (hcondition expr)).seq fun _ => hskip
  | otherwise =>
      exact (Ensures.ofExcept (hblocks s.conditions.faults_otherwise)).seq fun _ =>
        (Ensures.modify _).seq fun _ => hskip
  | endIf =>
      exact (Ensures.ofExcept (hblocks s.conditions.faults_close)).seq fun _ =>
        (Ensures.modify _).seq fun _ => hskip
  | _ => exact hskip

/-- Whether a directive can end in a step: it asks for a file or excludes its own only if it is the
one that does. -/
def Directive.Allows (d : Directive) : Step → Prop
  | .includeFile _ => ∃ expr, d = .includeFile expr
  | .exclude => ∃ expr, d = .excludeIf expr
  | _ => True

/-- A directive that does not shape the blocks skips its line, unless it is the one that excludes
the file or asks for another. -/
theorem ensures_plain_of {d : Directive} {post : Step → Prop} (hskips : post .skip)
    (hexcludes : ∀ expr, d = .excludeIf expr → post .exclude)
    (hincludes : ∀ expr target, d = .includeFile expr → post (.includeFile target)) :
    Ensures Fault.isOfEffect post (LineM.plain host site d) := by
  have hskip : Ensures Fault.isOfEffect post (pure .skip : LineM σ Step) := .pure hskips
  cases d with
  | excludeIf expr =>
      refine (EngineM.ensures_condition host site expr).toLine.seq fun b => ?_
      cases b with
      | true => exact (Ensures.modify _).seq fun _ => .pure (hexcludes expr rfl)
      | false => exact hskip
  | define name expr =>
      exact (EngineM.ensures_define host site name expr).toLine.seq fun _ => hskip
  | undefine name => exact (EngineM.ensures_change _).toLine.seq fun _ => hskip
  | defineGlobal name expr => exact .throw rfl
  | includeFile expr =>
      exact (EngineM.ensures_string host site _ expr).toLine.seq fun target =>
        .pure (hincludes expr target rfl)
  | action args => exact (EngineM.ensures_action host site args).toLine.seq fun _ => hskip
  | outname expr =>
      refine (EngineM.ensures_string host site _ expr).toLine.seq fun name => ?_
      dsimp only
      split
      · exact .throw rfl
      · exact (Ensures.modify _).seq fun _ => hskip
  | error expr =>
      exact (EngineM.ensures_value host site expr).toLine.seq fun _ => .throw rfl
  | warning expr =>
      exact (EngineM.ensures_value host site expr).toLine.seq fun _ =>
        (Ensures.modify _).toLine.seq fun _ => hskip
  | echo expr =>
      exact (EngineM.ensures_value host site expr).toLine.seq fun _ =>
        (Ensures.modify _).toLine.seq fun _ => hskip
  | outputOff => exact (Ensures.modify _).seq fun _ => hskip
  | outputOn => exact (Ensures.modify _).seq fun _ => hskip
  | commentNext => exact (Ensures.modify _).seq fun _ => hskip
  | unknown text => exact .throw rfl
  | _ => exact hskip

theorem ensures_plain (d : Directive) :
    Ensures Fault.isOfEffect d.Allows (LineM.plain host site d) :=
  ensures_plain_of host site trivial (fun expr hd => ⟨expr, hd⟩) fun expr _ hd => ⟨expr, hd⟩

def LineKind.Allows (content : String) (step : Step) : Prop :=
  step = .skip ∨ (∃ text, step = .emit text) ∨
    ∃ d, LineKind.classify content = .ok (.directive d) ∧ d.Allows step

/-- Whether a fault is one that a line of this content can have: it does not fit the open blocks
only if it continues one. -/
def Fault.isOfContent (content : String) (fault : Fault) : Bool :=
  fault.isOfText || (fault.isOfEffect || LineKind.isContinuing content && fault.isOfBlocks)

theorem ensures_line (content : String) :
    Ensures (Fault.isOfContent content) (LineKind.Allows content)
      (LineM.line host site content) := by
  have hskip : Ensures (Fault.isOfContent content) (LineKind.Allows content)
      (pure .skip : LineM σ Step) := .pure (.inl rfl)
  have hemit (text : String) : Ensures (Fault.isOfContent content) (LineKind.Allows content)
      (LineM.emit text : LineM σ Step) :=
    ⟨fun hrun => by cases hrun; exact .inr (.inl ⟨_, rfl⟩), fun hrun => by cases hrun⟩
  have heffect (fault : Fault) (h : fault.isOfEffect = true) :
      fault.isOfContent content = true := by
    rw [Fault.isOfContent, h, Bool.true_or, Bool.or_true]
  have hsubstituted (s : String) : Ensures (Fault.isOfContent content) (fun _ => True)
      (EngineM.substituted host site s).toLine :=
    (EngineM.ensures_substituted host site s).toLine.weaken heffect fun _ => id
  refine Ensures.get.seq fun state => ?_
  split
  · exact hskip
  · refine Ensures.get.seq fun state => ?_
    cases hkind : LineKind.classify content with
    | error fault =>
        refine .throw ?_
        rw [Fault.isOfContent, LineKind.faults_classify content fault hkind, Bool.true_or]
    | ok kind =>
        cases kind with
        | text =>
            dsimp only
            split
            · exact (hsubstituted content).seq hemit
            · exact hskip
        | toggle indent body raw =>
            dsimp only
            split
            · cases raw with
              | true => exact hemit _
              | false => exact (hsubstituted body).seq fun _ => hemit _
            · exact hskip
        | directive d =>
            dsimp only
            split
            · have hcontinuing : LineKind.isContinuing content = d.isContinuing := by
                rw [LineKind.isContinuing, hkind]
              refine (ensures_conditional host site d).weaken (fun fault h => ?_)
                fun step hstep => .inl hstep
              rw [Fault.isOfContent, hcontinuing, h, Bool.or_true]
            · split
              · exact (ensures_plain host site d).weaken heffect fun step hstep =>
                  .inr (.inr ⟨d, hkind, hstep⟩)
              · exact hskip

variable {host site} {content : String} {s s' : Scope} {e e' : Engine σ}

theorem isOfLine_of_processLine {fault : Fault}
    (h : e.processLine host site content s = (.error fault, s', e')) :
    fault.isOfLine = true := by
  have hfault := (ensures_line host site content).fault h
  simp only [Fault.isOfContent, Bool.or_eq_true, Bool.and_eq_true] at hfault
  rcases hfault with htext | heffect | ⟨-, hblocks⟩
  · exact Fault.isOfLine_of_isOfText htext
  · exact Fault.isOfLine_of_isOfEffect heffect
  · exact Fault.isOfLine_of_isOfBlocks hblocks

/-- Only a line that continues a block can be unbalanced. -/
theorem isContinuing_of_processLine {fault : Fault}
    (h : e.processLine host site content s = (.error fault, s', e'))
    (hkind : fault.kind = .unbalanced) : LineKind.isContinuing content = true := by
  have hfault := (ensures_line host site content).fault h
  simp only [Fault.isOfContent, Bool.or_eq_true, Bool.and_eq_true] at hfault
  rcases hfault with htext | heffect | ⟨hcontinuing, -⟩
  · rw [Fault.kind_of_isOfText htext] at hkind
    cases hkind
  · exact absurd hkind (Fault.kind_ne_of_isOfEffect heffect)
  · exact hcontinuing

theorem exists_of_processLine_includeFile {target : String}
    (h : e.processLine host site content s = (.ok (.includeFile target), s', e')) :
    ∃ expr, LineKind.classify content = .ok (.directive (.includeFile expr)) ∧
      (EngineM.string host site "include" expr).run e = (.ok target, e') := by
  obtain ⟨expr, hkind⟩ : ∃ expr,
      LineKind.classify content = .ok (.directive (.includeFile expr)) := by
    rcases (ensures_line host site content).value h with
      hskip | ⟨text, hemit⟩ | ⟨d, hkind, expr, rfl⟩
    · cases hskip
    · cases hemit
    · exact ⟨expr, hkind⟩
  refine ⟨expr, hkind, ?_⟩
  rw [processLine_eq, hkind] at h
  cases hactive : s.conditions.isActive with
  | false =>
      rw [hactive] at h
      dsimp only at h
      split at h <;> cases h
  | true =>
      rw [hactive] at h
      rcases hstring : (EngineM.string host site "include" expr).run e with ⟨r, e₁⟩
      have hline := run_toLine hstring s
      have hplain : (LineM.plain host site (.includeFile expr)).run (s, e) =
          ((EngineM.string host site "include" expr).toLine >>= fun target =>
            pure (.includeFile target) : LineM σ Step).run (s, e) := rfl
      cases r with
      | error fault =>
          rw [run_bind_of_error hline] at hplain
          cases hplain.symm.trans h
      | ok target' =>
          rw [run_bind_of_ok hline] at hplain
          cases hplain.symm.trans h
          rfl

theorem exists_of_processLine_exclude
    (h : e.processLine host site content s = (.ok .exclude, s', e')) :
    ∃ expr, LineKind.classify content = .ok (.directive (.excludeIf expr)) := by
  rcases (ensures_line host site content).value h with hskip | ⟨text, hemit⟩ | ⟨d, hkind, expr, rfl⟩
  · cases hskip
  · cases hemit
  · exact ⟨expr, hkind⟩

end Preprocessor
