/-
A line followed in another place.

Lines can be followed a second time in another place: on other blocks that count, at another line,
or with another log.  If a line succeeds in the first place and reads nothing of the place, it does
the same in the second, and the two places stay alike.  A block that lies below in the second place
is not touched, since the first has none there to continue.
-/
import Preprocessor.Proofs.SiteReading

namespace Preprocessor

variable {σ α β : Type}

/-! ## Computations that mirror each other -/

section

variable {ε ε' τ τ' : Type} {R : τ → τ' → Prop}

/-- `Mirrors R x y`: from related states, `y` succeeds wherever `x` does, with the same value and
in a related state. -/
def Mirrors (R : τ → τ' → Prop) (x : ExceptT ε (StateM τ) α) (y : ExceptT ε' (StateM τ') α) :
    Prop :=
  ∀ s s', R s s' → ∀ a s₁, x.run s = (.ok a, s₁) → ∃ s₁', y.run s' = (.ok a, s₁') ∧ R s₁ s₁'

namespace Mirrors

variable {x : ExceptT ε (StateM τ) α} {y : ExceptT ε' (StateM τ') α}

theorem pure (a : α) : Mirrors R (Pure.pure a : ExceptT ε (StateM τ) α)
    (Pure.pure a : ExceptT ε' (StateM τ') α) := by
  intro s s' hs b s₁ hrun
  cases hrun
  exact ⟨s', rfl, hs⟩

theorem throw (fault : ε) : Mirrors R (MonadExcept.throw fault : ExceptT ε (StateM τ) α) y := by
  intro s s' hs a s₁ hrun
  cases hrun

theorem bind {f : α → ExceptT ε (StateM τ) β} {g : α → ExceptT ε' (StateM τ') β}
    (hx : Mirrors R x y) (hf : ∀ a, Mirrors R (f a) (g a)) : Mirrors R (x >>= f) (y >>= g) := by
  intro s s' hs b s₂ hrun
  rcases hr : x.run s with ⟨r, s₁⟩
  cases r with
  | error e =>
      rw [run_bind_of_error hr] at hrun
      cases hrun
  | ok a =>
      rw [run_bind_of_ok hr] at hrun
      obtain ⟨s₁', hy, hs₁⟩ := hx s s' hs a s₁ hr
      rw [run_bind_of_ok hy]
      exact hf a s₁ s₁' hs₁ b s₂ hrun

theorem modify {f : τ → τ} {g : τ' → τ'} (h : ∀ s s', R s s' → R (f s) (g s')) :
    Mirrors R (modify f : ExceptT ε (StateM τ) PUnit)
      (modify g : ExceptT ε' (StateM τ') PUnit) := by
  intro s s' hs a s₁ hrun
  cases hrun
  exact ⟨g s', rfl, h s s' hs⟩

end Mirrors

end

/-! ## Engines -/

/-- Engines that differ in their logs alone. -/
structure Engine.Agree (e e' : Engine σ) : Prop where
  env : e'.env = e.env
  host : e'.host = e.host
  outname : e'.outname = e.outname

theorem Engine.Agree.refl (e : Engine σ) : e.Agree e :=
  ⟨rfl, rfl, rfl⟩

namespace EngineM

theorem mirrors_ofHosted (x : Environment → Hosted σ Fault α) :
    Mirrors Engine.Agree (ofHosted x) (ofHosted x) := by
  intro e e' he a e₁ hrun
  have hrun' : (ofHosted x).run e' =
      (((x e.env).run e.host).1, { e' with host := ((x e.env).run e.host).2 }) := by
    rw [← he.env, ← he.host]
    rfl
  obtain ⟨hvalue, rfl⟩ := Prod.mk.inj hrun
  refine ⟨{ e' with host := ((x e.env).run e.host).2 }, ?_, he.env, rfl, he.outname⟩
  rw [hrun']
  exact congrArg (·, _) hvalue

theorem run_change_of_ok {f : Environment → Except EvalError Environment} {e : Engine σ}
    {env : Environment} (h : f e.env = .ok env) :
    (change f : EngineM σ Unit).run e = (.ok (), { e with env := env }) := by
  have hget : (get : EngineM σ (Engine σ)).run e = (.ok e, e) := rfl
  rw [change, run_bind_of_ok hget, h]
  rfl

theorem run_change_of_error {f : Environment → Except EvalError Environment} {e : Engine σ}
    {err : EvalError} (h : f e.env = .error err) :
    (change f : EngineM σ Unit).run e = (.error (.eval err), e) := by
  have hget : (get : EngineM σ (Engine σ)).run e = (.ok e, e) := rfl
  rw [change, run_bind_of_ok hget, h]
  rfl

theorem mirrors_change (f : Environment → Except EvalError Environment) :
    Mirrors Engine.Agree (change f : EngineM σ Unit) (change f : EngineM σ Unit) := by
  intro e e' he a e₁ hrun
  cases hf : f e.env with
  | error err =>
      rw [run_change_of_error hf] at hrun
      cases hrun
  | ok env =>
      rw [run_change_of_ok hf] at hrun
      cases hrun
      rw [← he.env] at hf
      exact ⟨_, run_change_of_ok hf, rfl, he.host, he.outname⟩

theorem mirrors_record (level : Level) (message message' : String) :
    Mirrors Engine.Agree (record level message : EngineM σ Unit) (record level message') :=
  .modify fun _ _ he => ⟨he.env, he.host, he.outname⟩

variable {site site' : Site}

theorem mirrors_value {s : String} (h : readsSite s = true → site = site') :
    Mirrors Engine.Agree (value (.declining σ) site s) (value (.declining σ) site' s) := by
  rw [value_congr h]
  exact mirrors_ofHosted _

theorem mirrors_substituted {s : String} (h : Inline.readsSite s = true → site = site') :
    Mirrors Engine.Agree (substituted (.declining σ) site s)
      (substituted (.declining σ) site' s) := by
  rw [substituted_congr h]
  exact mirrors_ofHosted _

theorem mirrors_string (keyword : String) {s : String} (h : readsSite s = true → site = site') :
    Mirrors Engine.Agree (string (.declining σ) site keyword s)
      (string (.declining σ) site' keyword s) := by
  refine (mirrors_value h).bind fun v => ?_
  cases v with
  | str text => exact .pure text
  | _ => exact .throw _

theorem mirrors_condition {s : String} (h : readsSite s = true → site = site') :
    Mirrors Engine.Agree (condition (.declining σ) site s) (condition (.declining σ) site' s) := by
  refine (mirrors_value h).bind fun v => ?_
  cases v with
  | bool b => exact .pure b
  | _ => exact .throw _

theorem mirrors_define (name : String) {expr : Option String}
    (h : expr.any readsSite = true → site = site') :
    Mirrors Engine.Agree (define (.declining σ) site name expr)
      (define (.declining σ) site' name expr) := by
  cases expr with
  | some s => exact (mirrors_value h).bind fun v => mirrors_change _
  | none => exact (Mirrors.pure (Value.bool true)).bind fun v => mirrors_change _

theorem mirrors_action {args : String}
    (h : (Directive.action args).readsSite = true → site = site') :
    Mirrors Engine.Agree (action (.declining σ) site args)
      (action (.declining σ) site' args) := by
  rw [action_congr h]
  unfold action
  cases Expr.parseList args with
  | error err => exact .throw _
  | ok exprs =>
      refine (mirrors_ofHosted _).bind fun values => (mirrors_ofHosted _).bind fun taken => ?_
      cases taken with
      | false => exact .throw _
      | true =>
          refine (mirrors_ofHosted _).bind fun accepted => ?_
          cases accepted with
          | false => exact .throw _
          | true => exact .pure ()

end EngineM

/-! ## Open blocks -/

/-- Blocks that differ at most in the lines that opened them. -/
structure Block.Alike (b b' : Block) : Prop where
  active : b'.active = b.active
  taken : b'.taken = b.taken
  outerActive : b'.outerActive = b.outerActive
  elseSeen : b'.elseSeen = b.elseSeen

/-- `c.Over base c'`: the blocks `c'` are those of `c` on top of `base`. -/
structure Conditions.Over (base : List Block) (c c' : Conditions) : Prop where
  blocks : ∃ above, c'.blocks = above ++ base ∧ List.Forall₂ Block.Alike c.blocks above
  excluded : c'.excluded = c.excluded

/-- `pending.Over base pending'`: whatever is pending becomes, so does the other over `base`. -/
inductive Conditions.Pending.Over (base : List Block) : Pending → Pending → Prop
  | settled {c c' : Conditions} : c.Over base c' → Over base (.settled c) (.settled c')
  | asks {next next' : Bool → Conditions} : (∀ b, (next b).Over base (next' b)) →
      Over base (.asks next) (.asks next')

namespace Conditions.Over

variable {base : List Block} {c c' : Conditions}

theorem isActive (hbase : base.head?.all Block.active = true) (h : c.Over base c') :
    c'.isActive = c.isActive := by
  obtain ⟨above, hblocks, hall⟩ := h.blocks
  unfold Conditions.isActive
  rw [hblocks, h.excluded]
  generalize c.blocks = blocks at hall
  cases hall with
  | nil => simp [hbase]
  | cons hb _ => simp [hb.active]

theorem push (hbase : base.head?.all Block.active = true) (h : c.Over base c') (line line' : Nat)
    (selected : Bool) : (c.push line selected).Over base (c'.push line' selected) := by
  obtain ⟨above, hblocks, hall⟩ := h.blocks
  have hactive := h.isActive hbase
  let b : Block := ⟨c'.isActive && selected, selected, c'.isActive, false, line'⟩
  refine ⟨⟨b :: above, ?_, .cons ⟨?_, rfl, hactive, rfl⟩ hall⟩, h.excluded⟩
  · rw [Conditions.push, hblocks]
    rfl
  · exact congrArg (· && selected) hactive

theorem openBlock (hbase : base.head?.all Block.active = true) (h : c.Over base c')
    (line line' : Nat) : Pending.Over base (c.openBlock line) (c'.openBlock line') := by
  unfold Conditions.openBlock
  rw [h.isActive hbase]
  split
  · exact .asks fun b => h.push hbase line line' b
  · exact .settled (h.push hbase line line' false)

theorem exclude (h : c.Over base c') : c.exclude.Over base c'.exclude :=
  ⟨h.blocks, rfl⟩

theorem exists_top {top : Block} {rest : List Block} {excluded : Bool}
    (h : Over base ⟨top :: rest, excluded⟩ c') :
    ∃ top' rest', c' = ⟨top' :: rest', excluded⟩ ∧ top.Alike top' ∧
      ∀ b b' : Block, b.Alike b' → Over base ⟨b :: rest, excluded⟩ ⟨b' :: rest', excluded⟩ := by
  obtain ⟨above, hblocks, hall⟩ := h.blocks
  rcases c' with ⟨blocks', excluded'⟩
  cases hall with
  | @cons _ top' _ above htop hrest =>
      cases hblocks
      cases h.excluded
      refine ⟨top', above ++ base, rfl, htop, fun b b' hb => ?_⟩
      exact ⟨⟨b' :: above, rfl, .cons hb hrest⟩, rfl⟩

theorem elseIf (h : c.Over base c') {pending : Pending} (hpending : c.elseIf = .ok pending) :
    ∃ pending', c'.elseIf = .ok pending' ∧ pending.Over base pending' := by
  rcases c with ⟨_ | ⟨top, rest⟩, excluded⟩
  · cases hpending
  · obtain ⟨top', rest', rfl, htop, hover⟩ := h.exists_top
    simp only [Conditions.elseIf, htop.elseSeen, htop.outerActive, htop.taken] at hpending ⊢
    split at hpending
    · cases hpending
    · rename_i helse
      rw [if_neg helse]
      split at hpending
      · rename_i hspent
        cases hpending
        rw [if_pos hspent]
        exact ⟨_, rfl, .settled (hover _ _ ⟨rfl, rfl, rfl, rfl⟩)⟩
      · rename_i hspent
        cases hpending
        rw [if_neg hspent]
        exact ⟨_, rfl, .asks fun b => hover _ _ ⟨rfl, rfl, rfl, rfl⟩⟩

theorem otherwise (h : c.Over base c') {c₁ : Conditions} (hc₁ : c.otherwise = .ok c₁) :
    ∃ c₁', c'.otherwise = .ok c₁' ∧ c₁.Over base c₁' := by
  rcases c with ⟨_ | ⟨top, rest⟩, excluded⟩
  · cases hc₁
  · obtain ⟨top', rest', rfl, htop, hover⟩ := h.exists_top
    simp only [Conditions.otherwise, htop.elseSeen, htop.outerActive, htop.taken] at hc₁ ⊢
    split at hc₁
    · cases hc₁
    · rename_i helse
      cases hc₁
      rw [if_neg helse]
      exact ⟨_, rfl, hover _ _ ⟨rfl, rfl, rfl, rfl⟩⟩

theorem close (h : c.Over base c') {c₁ : Conditions} (hc₁ : c.close = .ok c₁) :
    ∃ c₁', c'.close = .ok c₁' ∧ c₁.Over base c₁' := by
  obtain ⟨above, hblocks, hall⟩ := h.blocks
  rcases c with ⟨_ | ⟨top, rest⟩, excluded⟩
  · cases hc₁
  · cases hc₁
    cases hall with
    | @cons _ top' _ above htop hrest =>
        rw [Conditions.close, hblocks]
        exact ⟨_, rfl, ⟨above, rfl, hrest⟩, h.excluded⟩

end Conditions.Over

/-! ## Scopes -/

/-- `s.Over base s'`: the scopes differ at most in the number of emitted lines, and in that the
blocks of `s'` lie on top of `base`. -/
structure Scope.Over (base : List Block) (s s' : Scope) : Prop where
  conditions : s.conditions.Over base s'.conditions
  outputOn : s'.outputOn = s.outputOn
  commentNext : s'.commentNext = s.commentNext

namespace Scope.Over

variable {base : List Block} {s s' : Scope}

theorem start (hexcluded : s.conditions.excluded = false) (houtput : s.outputOn = true)
    (hcomment : s.commentNext = false) : Over s.conditions.blocks {} s :=
  ⟨⟨⟨[], rfl, .nil⟩, hexcluded⟩, houtput, hcomment⟩

/-- Where one scope has closed all its blocks, the other has those below left. -/
theorem blocks_eq (h : s.Over base s') (hs : s.conditions.blocks = []) :
    s'.conditions.blocks = base := by
  obtain ⟨above, hblocks, hall⟩ := h.conditions.blocks
  rw [hs] at hall
  cases hall
  exact hblocks

end Scope.Over

/-- Scopes and engines that lines keep alike. -/
def Mirrored (base : List Block) (p p' : Scope × Engine σ) : Prop :=
  p.1.Over base p'.1 ∧ p.2.Agree p'.2

section

variable {base : List Block}

theorem Scope.Over.within {s s' : Scope} {c c' : Conditions} (h : s.Over base s')
    (hc : c.Over base c') : (s.within c).Over base (s'.within c') :=
  ⟨hc, h.outputOn, h.commentNext⟩

theorem Mirrors.toLine {x y : EngineM σ α} (h : Mirrors Engine.Agree x y) :
    Mirrors (Mirrored base) x.toLine y.toLine := by
  rintro ⟨s, e⟩ ⟨s', e'⟩ ⟨hs, he⟩ a ⟨s₁, e₁⟩ hrun
  rcases hx : x.run e with ⟨r, e₂⟩
  rw [run_toLine hx s] at hrun
  cases hrun
  obtain ⟨e₁', hy, he₁⟩ := h e e' he a e₁ hx
  exact ⟨(s', e₁'), run_toLine hy s', hs, he₁⟩

theorem mirrors_changeScope {f : Scope → Scope}
    (h : ∀ s s' : Scope, s.Over base s' → (f s).Over base (f s')) :
    Mirrors (Mirrored base) (LineM.changeScope f : LineM σ Unit) (LineM.changeScope f) :=
  .modify fun p p' hp => ⟨h p.1 p'.1 hp.1, hp.2⟩

theorem mirrors_emit (text : String) :
    Mirrors (Mirrored base) (LineM.emit text : LineM σ Step) (LineM.emit text) := by
  rintro ⟨s, e⟩ ⟨s', e'⟩ ⟨hs, he⟩ a p₁ hrun
  cases hrun
  refine ⟨({ s' with emitted := s'.emitted + 1, commentNext := false }, e'), ?_,
    ⟨hs.conditions, hs.outputOn, rfl⟩, he⟩
  rw [← hs.commentNext]
  rfl

/-- A directive that shapes no block does the same in both places, if it reads nothing of them. -/
theorem mirrors_plain {site site' : Site} {d : Directive}
    (h : d.readsSite = true → site = site') :
    Mirrors (Mirrored base) (LineM.plain (.declining σ) site d)
      (LineM.plain (.declining σ) site' d) := by
  have hskip : Mirrors (Mirrored base) (Pure.pure .skip : LineM σ Step)
      (Pure.pure .skip : LineM σ Step) := .pure Step.skip
  cases d with
  | excludeIf expr =>
      refine (EngineM.mirrors_condition h).toLine.bind fun b => ?_
      cases b with
      | true =>
          refine Mirrors.bind (mirrors_changeScope fun _ _ hs => ?_) fun _ => .pure Step.exclude
          exact ⟨hs.conditions.exclude, hs.outputOn, hs.commentNext⟩
      | false => exact hskip
  | define name expr => exact (EngineM.mirrors_define name h).toLine.bind fun _ => hskip
  | undefine name => exact (EngineM.mirrors_change _).toLine.bind fun _ => hskip
  | defineGlobal name expr => exact .throw _
  | includeFile expr =>
      exact (EngineM.mirrors_string "include" h).toLine.bind fun target =>
        .pure (Step.includeFile target)
  | action args => exact (EngineM.mirrors_action h).toLine.bind fun _ => hskip
  | outname expr =>
      refine (EngineM.mirrors_string "outname" h).toLine.bind fun name => ?_
      dsimp only
      split
      · exact .throw _
      · refine Mirrors.bind (.modify fun p p' hp => ?_) fun _ => hskip
        exact ⟨hp.1, hp.2.env, hp.2.host, rfl⟩
  | error expr => exact (EngineM.mirrors_value h).toLine.bind fun _ => .throw _
  | warning expr =>
      -- the place shows in the message alone
      exact (EngineM.mirrors_value h).toLine.bind fun _ =>
        (EngineM.mirrors_record _ _ _).toLine.bind fun _ => hskip
  | echo expr =>
      exact (EngineM.mirrors_value h).toLine.bind fun _ =>
        (EngineM.mirrors_record _ _ _).toLine.bind fun _ => hskip
  | outputOff =>
      refine Mirrors.bind (mirrors_changeScope fun _ _ hs => ?_) fun _ => hskip
      exact ⟨hs.conditions, rfl, hs.commentNext⟩
  | outputOn =>
      refine Mirrors.bind (mirrors_changeScope fun _ _ hs => ?_) fun _ => hskip
      exact ⟨hs.conditions, rfl, hs.commentNext⟩
  | commentNext =>
      refine Mirrors.bind (mirrors_changeScope fun _ _ hs => ?_) fun _ => hskip
      exact ⟨hs.conditions, hs.outputOn, rfl⟩
  | unknown text => exact .throw _
  | _ => exact hskip

theorem Test.mirrors_value {site site' : Site} {t : Test}
    (h : t.directive.readsSite = true → site = site') :
    Mirrors Engine.Agree (t.value (.declining σ) site) (t.value (.declining σ) site') := by
  cases t with
  | holds expr => exact EngineM.mirrors_condition h
  | isDefined name =>
      intro e e' he a e₁ hrun
      cases hrun
      refine ⟨e', ?_, he⟩
      change (Except.ok (e'.env.isDefined name site'), e') = _
      rw [he.env, e.env.isDefined_congr name site' site]
  | isNotDefined name =>
      intro e e' he a e₁ hrun
      cases hrun
      refine ⟨e', ?_, he⟩
      change (Except.ok (!e'.env.isDefined name site'), e') = _
      rw [he.env, e.env.isDefined_congr name site' site]

theorem exists_of_settle {x x' : EngineM σ Bool} (hx : Mirrors Engine.Agree x x')
    {pending pending' : Conditions.Pending} (hpending : pending.Over base pending')
    {s s' s₁ : Scope} {e e' e₁ : Engine σ} {step : Step} (hs : s.Over base s') (he : e.Agree e')
    (h : s.settle x e pending = (.ok step, s₁, e₁)) :
    ∃ s₁' e₁', s'.settle x' e' pending' = (.ok step, s₁', e₁') ∧ s₁.Over base s₁' ∧
      e₁.Agree e₁' := by
  cases hpending with
  | settled hc =>
      cases h
      exact ⟨_, _, rfl, hs.within hc, he⟩
  | asks hnext =>
      unfold Scope.settle at h ⊢
      dsimp only at h
      split at h
      · rename_i b e₂ hrun
        cases h
        obtain ⟨e₁', hrun', he₁⟩ := hx e e' he b e₁ hrun
        dsimp only
        rw [hrun']
        exact ⟨_, _, rfl, hs.within (hnext b), he₁⟩
      · cases h

end

/-! ## Lines -/

section

variable {base : List Block} {site site' : Site} {content : String} {s s' s₁ : Scope}
  {e e' e₁ : Engine σ} {step : Step}

/-- The line does in the second place what it has done in the first. -/
def Repeats (base : List Block) (site' : Site) (content : String) (s' : Scope) (e' : Engine σ)
    (step : Step) (s₁ : Scope) (e₁ : Engine σ) : Prop :=
  ∃ s₁' e₁', e'.processLine (.declining σ) site' content s' = (.ok step, s₁', e₁') ∧
    s₁.Over base s₁' ∧ e₁.Agree e₁'

theorem repeats_of_conditional (hbase : base.head?.all Block.active = true) {d : Directive}
    (hkind : LineKind.classify content = .ok (.directive d)) (hd : d.isConditional = true)
    (hreads : d.readsSite = true → site = site') (hs : s.Over base s') (he : e.Agree e')
    (h : e.processLine (.declining σ) site content s = (.ok step, s₁, e₁)) :
    Repeats base site' content s' e' step s₁ e₁ := by
  have hopening (t : Test) (ht : d = t.directive) :
      Repeats base site' content s' e' step s₁ e₁ := by
    subst ht
    rw [processLine_of_opening _ site t hkind] at h
    rw [Repeats, processLine_of_opening _ site' t hkind]
    exact exists_of_settle (Test.mirrors_value hreads)
      (hs.conditions.openBlock hbase site.line site'.line) hs he h
  cases d with
  | ifTrue expr => exact hopening (.holds expr) rfl
  | ifDefined name => exact hopening (.isDefined name) rfl
  | ifNotDefined name => exact hopening (.isNotDefined name) rfl
  | elseIf expr =>
      rw [processLine_of_elseIf _ site hkind] at h
      rw [Repeats, processLine_of_elseIf _ site' hkind]
      split at h
      · cases h
      · rename_i pending hpending
        obtain ⟨pending', hpending', hover⟩ := hs.conditions.elseIf hpending
        rw [hpending']
        exact exists_of_settle (EngineM.mirrors_condition hreads) hover hs he h
  | otherwise =>
      rw [processLine_of_otherwise _ site hkind] at h
      rw [Repeats, processLine_of_otherwise _ site' hkind]
      split at h
      · cases h
      · rename_i c hc
        cases h
        obtain ⟨c', hc', hover⟩ := hs.conditions.otherwise hc
        rw [hc']
        exact ⟨_, _, rfl, hs.within hover, he⟩
  | endIf =>
      rw [processLine_of_endIf _ site hkind] at h
      rw [Repeats, processLine_of_endIf _ site' hkind]
      split at h
      · cases h
      · rename_i c hc
        cases h
        obtain ⟨c', hc', hover⟩ := hs.conditions.close hc
        rw [hc']
        exact ⟨_, _, rfl, hs.within hover, he⟩
  | _ => cases hd

theorem repeats_of_branch {x y : LineM σ Step} (hx : Mirrors (Mirrored base) x y) {c c' : Prop}
    [Decidable c] [Decidable c'] (hs : s.Over base s') (he : e.Agree e')
    (h : (if c then (.ok .skip, s, e) else if c' then x.run (s, e) else (.ok .skip, s, e)) =
      (.ok step, s₁, e₁)) :
    ∃ s₁' e₁',
      (if c then (.ok .skip, s', e') else if c' then y.run (s', e') else (.ok .skip, s', e')) =
        (.ok step, s₁', e₁') ∧ s₁.Over base s₁' ∧ e₁.Agree e₁' := by
  by_cases hc : c
  · rw [if_pos hc] at h ⊢
    cases h
    exact ⟨s', e', rfl, hs, he⟩
  · by_cases hc' : c'
    · rw [if_neg hc, if_pos hc'] at h ⊢
      obtain ⟨⟨s₁', e₁'⟩, hy, hs₁, he₁⟩ := hx (s, e) (s', e') ⟨hs, he⟩ step (s₁, e₁) h
      exact ⟨s₁', e₁', hy, hs₁, he₁⟩
    · rw [if_neg hc, if_neg hc'] at h ⊢
      cases h
      exact ⟨s', e', rfl, hs, he⟩

/-- A line that succeeds and reads nothing of its place does the same in the other. -/
theorem repeats_of_processLine (hbase : base.head?.all Block.active = true)
    (hreads : LineKind.readsSite content = true → site = site') (hs : s.Over base s')
    (he : e.Agree e') (h : e.processLine (.declining σ) site content s = (.ok step, s₁, e₁)) :
    Repeats base site' content s' e' step s₁ e₁ := by
  have hactive : s'.conditions.isActive = s.conditions.isActive := hs.conditions.isActive hbase
  unfold LineKind.readsSite at hreads
  cases hkind : LineKind.classify content with
  | error fault =>
      rw [processLine_eq, hkind] at h
      rw [Repeats, processLine_eq, hkind, hactive]
      dsimp only at h ⊢
      split at h
      · rename_i hsuppressed
        rw [if_pos hsuppressed]
        cases h
        exact ⟨s', e', rfl, hs, he⟩
      · cases h
  | ok kind =>
      rw [hkind] at hreads
      cases kind with
      | directive d =>
          cases hd : d.isConditional with
          | true => exact repeats_of_conditional hbase hkind hd hreads hs he h
          | false =>
              rw [processLine_eq, hkind] at h
              rw [Repeats, processLine_eq, hkind, hactive]
              simp only [hd, Bool.false_eq_true, if_false] at h ⊢
              exact repeats_of_branch (mirrors_plain hreads) hs he h
      | text =>
          rw [processLine_eq, hkind] at h
          rw [Repeats, processLine_eq, hkind, hactive, hs.outputOn]
          have hline : Mirrors (Mirrored base)
              ((EngineM.substituted (.declining σ) site content).toLine >>= LineM.emit)
              ((EngineM.substituted (.declining σ) site' content).toLine >>= LineM.emit) :=
            (EngineM.mirrors_substituted hreads).toLine.bind mirrors_emit
          exact repeats_of_branch hline hs he h
      | toggle indent body raw =>
          rw [processLine_eq, hkind] at h
          rw [Repeats, processLine_eq, hkind, hactive, hs.outputOn]
          have hbody : Mirrors (Mirrored base)
              (if raw then pure body else (EngineM.substituted (.declining σ) site body).toLine)
              (if raw then pure body
                else (EngineM.substituted (.declining σ) site' body).toLine) := by
            cases raw with
            | true => exact .pure body
            | false => exact (EngineM.mirrors_substituted hreads).toLine
          exact repeats_of_branch (hbody.bind fun _ => mirrors_emit _) hs he h

end

end Preprocessor
