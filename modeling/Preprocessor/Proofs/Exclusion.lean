/-
Exclusion is final.

Going to a further branch looks at the block alone, not at whether the file is excluded; so what
keeps an excluded file quiet is a property of the blocks.  A branch counts only if it was selected,
and the region around a block that counts counts as well.  A file is excluded from a line that
counts, so at that moment a branch of every open block has been selected; and the blocks opened
later lie in a region that does not count.  In neither is there a condition left to ask for.

Closing a block uncovers the one around it, which is why the property is stated of all open blocks
and not of the innermost alone.
-/
import Preprocessor.Proofs.FailingLines

namespace Preprocessor

variable {σ : Type}

/-! ## Blocks that are open in each other -/

/-- What holds of the open blocks of a file, the innermost first: a branch counts only if it was
selected in a region that counted, and the region in which a block was opened still counts if it
did then. -/
def Block.Coherent : List Block → Prop
  | [] => True
  | b :: rest =>
    (b.active = true → b.taken = true ∧ b.outerActive = true) ∧
      (b.outerActive = true → rest.head?.all Block.active = true) ∧ Coherent rest

theorem Block.Coherent.taken {blocks : List Block} (h : Coherent blocks)
    (hactive : blocks.head?.all Block.active = true) : ∀ b ∈ blocks, b.taken = true := by
  induction blocks with
  | nil => exact List.forall_mem_nil _
  | cons top rest ih =>
      obtain ⟨htop, houter, hrest⟩ := h
      have htaken := htop (by simpa using hactive)
      exact List.forall_mem_cons.mpr ⟨htaken.1, ih hrest (houter htaken.2)⟩

namespace Conditions

variable {c c' : Conditions} {line : Nat} {pending : Pending}

theorem coherent_push (h : Block.Coherent c.blocks) (selected : Bool) :
    Block.Coherent (c.push line selected).blocks := by
  refine ⟨?_, ?_, h⟩
  · intro hactive
    simp only [Bool.and_eq_true] at hactive
    exact ⟨hactive.2, hactive.1⟩
  · intro houter
    simp only [isActive, Bool.and_eq_true] at houter
    exact houter.2

theorem coherent_openBlock (h : Block.Coherent c.blocks)
    (hbecomes : (c.openBlock line).Becomes c') : Block.Coherent c'.blocks := by
  unfold openBlock at hbecomes
  split at hbecomes
  · cases hbecomes with
    | asks next b => exact coherent_push h b
  · cases hbecomes with
    | settled => exact coherent_push h false

theorem coherent_elseIf (h : Block.Coherent c.blocks) (hpending : c.elseIf = .ok pending)
    (hbecomes : pending.Becomes c') : Block.Coherent c'.blocks := by
  rcases c with ⟨blocks, excluded⟩
  cases blocks with
  | nil => cases hpending
  | cons top rest =>
      obtain ⟨htop, houter, hrest⟩ := h
      simp only [elseIf] at hpending
      split at hpending
      · cases hpending
      · split at hpending
        · cases hpending
          cases hbecomes with
          | settled => exact ⟨(fun hactive => by cases hactive), houter, hrest⟩
        · rename_i hopen
          -- a condition is asked for only if the region around the block counts
          have houterActive : top.outerActive = true := by
            cases hb : top.outerActive with
            | true => rfl
            | false => simp [hb] at hopen
          cases hpending
          cases hbecomes with
          | asks next b => exact ⟨fun hactive => ⟨hactive, houterActive⟩, houter, hrest⟩

theorem coherent_otherwise (h : Block.Coherent c.blocks) (hlast : c.otherwise = .ok c') :
    Block.Coherent c'.blocks := by
  rcases c with ⟨blocks, excluded⟩
  cases blocks with
  | nil => cases hlast
  | cons top rest =>
      obtain ⟨htop, houter, hrest⟩ := h
      simp only [otherwise] at hlast
      split at hlast
      · cases hlast
      · cases hlast
        refine ⟨fun hactive => ⟨rfl, ?_⟩, houter, hrest⟩
        simp only [Bool.and_eq_true] at hactive
        exact hactive.1

theorem coherent_close (h : Block.Coherent c.blocks) (hclose : c.close = .ok c') :
    Block.Coherent c'.blocks := by
  rcases c with ⟨blocks, excluded⟩
  cases blocks with
  | nil => cases hclose
  | cons top rest =>
      cases hclose
      exact h.2.2

theorem coherent_of_turns {part : Option Part} (h : Block.Coherent c.blocks)
    (hturns : c.Turns line part c') : Block.Coherent c'.blocks := by
  cases hturns with
  | stay => exact h
  | exclude hactive => exact h
  | opening hbecomes => exact coherent_openBlock h hbecomes
  | further hpending hbecomes => exact coherent_elseIf h hpending hbecomes
  | last hlast => exact coherent_otherwise h hlast
  | closing hclose => exact coherent_close h hclose

end Conditions

/-- The scopes that a file can be in: that of a file not begun, and after a line whatever engine
follows it, be it with success or not. -/
inductive Scope.Reached : Scope → Prop
  | start : Reached {}
  | line {σ : Type} {s : Scope} (host : Host σ) (site : Site) (content : String) (e : Engine σ) :
      Reached s → Reached (e.processLine host site content s).2.1

theorem Scope.Reached.coherent {s : Scope} (h : s.Reached) :
    Block.Coherent s.conditions.blocks := by
  induction h with
  | start => trivial
  | @line σ s host site content e hs ih =>
      rcases hline : e.processLine host site content s with ⟨r, s', e'⟩
      cases r with
      | error fault =>
          have hkept := LineM.atomic_line host site content (s, e) fault (s', e') hline
          have hscope : s' = s := congrArg Prod.fst hkept
          rw [hscope]
          exact ih
      | ok step => exact Conditions.coherent_of_turns ih (turns_of_processLine hline)

/-! ## After the exclusion -/

/-- The file is excluded, and no block has a branch left to decide. -/
structure Conditions.Finished (c : Conditions) : Prop where
  excluded : c.excluded = true
  decided : ∀ b ∈ c.blocks, b.Decided

namespace Conditions

variable {c c' : Conditions} {line : Nat}

theorem Finished.isActive (h : c.Finished) : c.isActive = false := by
  simp [Conditions.isActive, h.excluded]

theorem Finished.state (h : c.Finished) : c.state = .suppressedByExclusion := by
  simp [Conditions.state, h.excluded]

/-- A file excluded while its lines count has nothing left to decide. -/
theorem finished_exclude (h : Block.Coherent c.blocks) (hactive : c.isActive = true) :
    c.exclude.Finished := by
  simp only [Conditions.isActive, Bool.and_eq_true] at hactive
  exact ⟨rfl, fun b hb => .inr (h.taken hactive.2 b hb)⟩

theorem Finished.passOver {part : Option Part} (h : c.Finished)
    (hc' : c.passOver line part = .ok c') : c'.Finished := by
  rcases part with - | part
  · cases hc'
    exact h
  · cases part with
    | opening =>
        rw [Conditions.passOver, openBlock_of_suppressed h.isActive] at hc'
        cases hc'
        exact ⟨h.excluded, List.forall_mem_cons.mpr ⟨.inl rfl, h.decided⟩⟩
    | further =>
        rcases c with ⟨blocks, excluded⟩
        cases blocks with
        | nil => cases hc'
        | cons top rest =>
            obtain ⟨htop, hrest⟩ := List.forall_mem_cons.mp h.decided
            cases helse : top.elseSeen with
            | true => simp [Conditions.passOver, elseIf, helse, Except.map] at hc'
            | false =>
                have hspent : top.Spent := ⟨helse, htop⟩
                rw [Conditions.passOver, hspent.elseIf] at hc'
                cases hc'
                exact ⟨h.excluded, List.forall_mem_cons.mpr ⟨htop, hrest⟩⟩
    | last =>
        rcases c with ⟨blocks, excluded⟩
        cases blocks with
        | nil => cases hc'
        | cons top rest =>
            obtain ⟨htop, hrest⟩ := List.forall_mem_cons.mp h.decided
            simp only [Conditions.passOver, otherwise] at hc'
            split at hc'
            · cases hc'
            · cases hc'
              exact ⟨h.excluded, List.forall_mem_cons.mpr ⟨.inr rfl, hrest⟩⟩
    | closing =>
        rcases c with ⟨blocks, excluded⟩
        cases blocks with
        | nil => cases hc'
        | cons top rest =>
            cases hc'
            exact ⟨h.excluded, (List.forall_mem_cons.mp h.decided).2⟩

end Conditions

/-- A line of a file that is excluded is passed over, and the file stays so. -/
theorem finished_passOver {s : Scope} (h : s.conditions.Finished) (line : Nat)
    (content : String) :
    ∃ r c, Inert r ∧ c.Finished ∧ s.passOver line content = (r, s.within c) := by
  rcases s.passOver_cases line content with ⟨fault, hfails, hkind⟩ | ⟨part, c, -, hc, hskips⟩
  · exact ⟨.error fault, s.conditions, .inr ⟨fault, rfl, hkind⟩, h, hfails⟩
  · exact ⟨.ok .skip, c, .inl rfl, h.passOver hc, hskips⟩

theorem isPassedOver_of_finished {s : Scope} (h : s.conditions.Finished) (host : Host σ)
    (site : Site) (content : String) (e : Engine σ) : IsPassedOver host site e content s :=
  isPassedOver_line h.isActive fun _ _ hb => h.decided _ (List.mem_of_head? hb)

/-! ## Any number of lines -/

section

variable {host : Host σ} {site : Nat → Site} {n : Nat} {lines : List String} {s : Scope}
  {e : Engine σ}

theorem outcomes_finished (h : s.conditions.Finished) :
    ∀ o ∈ outcomes host site n lines s e,
      ∃ r c, Inert r ∧ c.Finished ∧ o = (r, s.within c, e) := by
  induction lines generalizing n s with
  | nil => exact List.forall_mem_nil _
  | cons content rest ih =>
      obtain ⟨r, c, hr, hc, hpass⟩ := finished_passOver h (site n).line content
      have hline : e.processLine host (site n) content s = (r, s.within c, e) := by
        rw [isPassedOver_of_finished h host (site n) content e, hpass]
      rw [outcomes, hline]
      refine List.forall_mem_cons.mpr ⟨⟨r, c, hr, hc, rfl⟩, ?_⟩
      intro o ho
      exact ih (s := s.within c) hc o ho

/-- Lines that play the same parts have the same outcomes in an excluded file, whoever follows
them. -/
theorem outcomes_finished_congr {τ : Type} {host' : Host τ} {lines' : List String}
    {e' : Engine τ} (h : s.conditions.Finished)
    (hparts : lines'.map LineKind.partPassedOver = lines.map LineKind.partPassedOver) :
    outcomes host' site n lines' s e' =
      (outcomes host site n lines s e).map fun o => (o.1, o.2.1, e') := by
  induction lines generalizing n s lines' with
  | nil =>
      cases lines' with
      | nil => rfl
      | cons content' rest' => cases hparts
  | cons content rest ih =>
      cases lines' with
      | nil => cases hparts
      | cons content' rest' =>
          obtain ⟨hpart, hrest⟩ := List.cons.inj hparts
          obtain ⟨r, c, hr, hc, hpass⟩ := finished_passOver h (site n).line content
          have hpass' : s.passOver (site n).line content' = (r, s.within c) := by
            rw [← hpass, Scope.passOver, Scope.passOver, hpart]
          have hline : e.processLine host (site n) content s = (r, s.within c, e) := by
            rw [isPassedOver_of_finished h host (site n) content e, hpass]
          have hline' : e'.processLine host' (site n) content' s = (r, s.within c, e') := by
            rw [isPassedOver_of_finished h host' (site n) content' e', hpass']
          rw [outcomes, outcomes, hline, hline', List.map_cons]
          exact congrArg _ (ih (s := s.within c) hc hrest)

end

/-- Exclusion is final.  Once a line has excluded its file, the file stays excluded whatever lines
follow, balanced or not.  Each of them is skipped or fails because it cannot be read or does not
fit its block; the number of emitted lines stays, and so do the variables, the name of the output,
the log and the host.  Nothing is evaluated: other lines that play the same parts in the blocks,
with any expressions on them, have the same outcomes for any other host and any other engine. -/
theorem outcomes_of_excluded {s₀ s : Scope} {e₀ e : Engine σ} {site₀ : Site} {content : String}
    (host : Host σ) (hreached : s₀.Reached)
    (hexcludes : e₀.processLine host site₀ content s₀ = (.ok .exclude, s, e))
    (site : Nat → Site) (n : Nat) (lines : List String) :
    s.conditions.state = .suppressedByExclusion ∧
    (∀ r s' e', (r, s', e') ∈ outcomes host site n lines s e →
      s'.conditions.state = .suppressedByExclusion ∧
      (r = .ok .skip ∨
        ∃ fault, r = .error fault ∧ (fault.kind = .malformed ∨ fault.kind = .unbalanced)) ∧
      s'.emitted = s.emitted ∧ e' = e) ∧
    ∀ (τ : Type) (host' : Host τ) (e' : Engine τ) (lines' : List String),
      lines'.map LineKind.partPassedOver = lines.map LineKind.partPassedOver →
      outcomes host' site n lines' s e' =
        (outcomes host site n lines s e).map fun o => (o.1, o.2.1, e') := by
  have hfinished : s.conditions.Finished := by
    obtain ⟨expr, hkind⟩ := exists_of_processLine_exclude hexcludes
    have hline : LineKind.isOrdinary content = true := by
      rw [LineKind.isOrdinary, hkind]
      rfl
    have hexcluded : s.conditions = s₀.conditions.exclude := conditions_of_ordinary hline hexcludes
    rw [hexcluded]
    exact Conditions.finished_exclude hreached.coherent (isActive_of_exclude hline hexcludes)
  refine ⟨hfinished.state, ?_, ?_⟩
  · intro r s' e' ho
    obtain ⟨r', c, hr, hc, heq⟩ := outcomes_finished hfinished _ ho
    cases heq
    exact ⟨hc.state, hr, rfl, rfl⟩
  · intro τ host' e' lines' hparts
    exact outcomes_finished_congr hfinished hparts

/-- Two blocks are open when the file is excluded, one of them on its last branch.  What follows
continues them as if they had branches left, closes one more than there are, opens another and has
a line that cannot be read. -/
theorem outcomes_excludedInside :
    let site : Nat → Site := fun n => ⟨⟨"Main.java"⟩, n⟩
    let e₀ : Engine Nat := { env := .forFile [] [] [] ⟨0, 0⟩ false, host := 0 }
    let o₁ := e₀.processLine countingHost (site 0) "//#if f()" {}
    let o₂ := o₁.2.2.processLine countingHost (site 1) "//#if 1 > 2" o₁.2.1
    let o₃ := o₂.2.2.processLine countingHost (site 2) "//#else" o₂.2.1
    let o := o₃.2.2.processLine countingHost (site 3) "//#excludeif f()" o₃.2.1
    let lines := ["text /*$f()$*/", "//#endif", "//#elif f()", "//#else", "//#endif", "//#endif",
      "//#if f()", "//#elif f()", "//#ifdef", "//#define a = f()"]
    o.1.toOption = some .exclude ∧ o.2.2.host = 2 ∧
      (outcomes countingHost site 4 lines o.2.1 o.2.2).map (·.1.toOption) =
        [some .skip, some .skip, some .skip, some .skip, some .skip, none, some .skip, some .skip,
          none, some .skip] ∧
      ∀ r s e, (r, s, e) ∈ outcomes countingHost site 4 lines o.2.1 o.2.2 →
        s.conditions.state = .suppressedByExclusion ∧ e = o.2.2 := by
  intro site e₀ o₁ o₂ o₃ o lines
  have hstep : o.1.toOption = some .exclude := by decide +kernel
  have hhost : o.2.2.host = 2 := by decide +kernel
  have hsteps : (outcomes countingHost site 4 lines o.2.1 o.2.2).map (·.1.toOption) =
      [some .skip, some .skip, some .skip, some .skip, some .skip, none, some .skip, some .skip,
        none, some .skip] := by decide +kernel
  have hreached : o₃.2.1.Reached :=
    .line countingHost (site 2) _ o₂.2.2 (.line countingHost (site 1) _ o₁.2.2
      (.line countingHost (site 0) _ e₀ .start))
  have hexcludes : o₃.2.2.processLine countingHost (site 3) "//#excludeif f()" o₃.2.1 =
      (.ok .exclude, o.2.1, o.2.2) := Prod.ext (eq_ok_of_toOption hstep) rfl
  refine ⟨hstep, hhost, hsteps, ?_⟩
  intro r s e ho
  obtain ⟨hstate, -, -, he⟩ :=
    (outcomes_of_excluded countingHost hreached hexcludes site 4 lines).2.1 r s e ho
  exact ⟨hstate, he⟩

end Preprocessor
