/-
A region under a false condition has no effect.

In a suppressed region a directive that shapes the blocks opens, continues and closes blocks of
its own, and every other line is skipped.  The blocks opened there are buried: they do not count,
and neither does the region around them, so none of their branches can be selected and no
condition is asked for.  What the region was opened in lies below them and is not touched.
-/
import Preprocessor.Proofs.PassingOver

namespace Preprocessor

variable {σ : Type}

/-! ## Blocks opened in a suppressed region -/

/-- A block that was opened in a region that does not count. -/
structure Block.Buried (b : Block) : Prop where
  inactive : b.active = false
  outer : b.outerActive = false

/-- The open blocks with others opened on top of them. -/
def Conditions.under (c : Conditions) (above : List Block) : Conditions :=
  { c with blocks := above ++ c.blocks }

namespace Conditions

variable {c : Conditions} {above : List Block}

theorem isActive_under (hc : c.isActive = false) (habove : ∀ b ∈ above, b.Buried) :
    (c.under above).isActive = false := by
  cases above with
  | nil => exact hc
  | cons top rest =>
      have htop := (habove top List.mem_cons_self).inactive
      simp [isActive, under, htop]

theorem state_under (hc : c.isActive = false) (habove : ∀ b ∈ above, b.Buried) :
    (c.under above).state = c.state := by
  unfold state
  rw [isActive_under hc habove, hc]
  rfl

theorem isActive_of_state_ne (h : c.state ≠ .active) : c.isActive = false := by
  cases hactive : c.isActive with
  | false => rfl
  | true => exact absurd (by simp [state, hactive, not_excluded hactive]) h

end Conditions

/-! ## One line -/

/-- A line that continues a block finds one that was opened in the region, or it is no matter of
the region around: what was open there stays. -/
theorem Conditions.exists_under_of_passOver {c c' : Conditions} {above : List Block} {line : Nat}
    {part : Option Part} (hc : c.isActive = false) (habove : ∀ b ∈ above, b.Buried)
    (hpart : part = none ∨ part = some .opening ∨ above ≠ [])
    (h : (c.under above).passOver line part = .ok c') :
    ∃ above', (∀ b ∈ above', b.Buried) ∧ c' = c.under above' := by
  rcases part with - | part
  · cases h
    exact ⟨above, habove, rfl⟩
  · cases part with
    | opening =>
        rw [passOver, openBlock_of_suppressed (isActive_under hc habove)] at h
        cases h
        refine ⟨⟨false, false, false, false, line⟩ :: above, ?_, rfl⟩
        exact List.forall_mem_cons.mpr ⟨⟨rfl, rfl⟩, habove⟩
    | further =>
        obtain ⟨top, rest, rfl⟩ := List.exists_cons_of_ne_nil (by simpa using hpart)
        obtain ⟨htop, hrest⟩ := List.forall_mem_cons.mp habove
        cases helse : top.elseSeen with
        | true => simp [passOver, under, elseIf, helse, Except.map] at h
        | false =>
            -- the block is spent, so its condition is not asked for
            have hspent : top.Spent := ⟨helse, .inl htop.outer⟩
            have helif : (c.under (top :: rest)).elseIf =
                .ok (.settled (c.under ({ top with active := false } :: rest))) := hspent.elseIf
            rw [passOver, helif] at h
            cases h
            refine ⟨{ top with active := false } :: rest, ?_, rfl⟩
            exact List.forall_mem_cons.mpr ⟨⟨rfl, htop.outer⟩, hrest⟩
    | last =>
        obtain ⟨top, rest, rfl⟩ := List.exists_cons_of_ne_nil (by simpa using hpart)
        obtain ⟨htop, hrest⟩ := List.forall_mem_cons.mp habove
        cases helse : top.elseSeen with
        | true => simp [passOver, under, otherwise, helse] at h
        | false =>
            have hspent : top.Spent := ⟨helse, .inl htop.outer⟩
            let last : Block := { top with active := false, taken := true, elseSeen := true }
            have hlast : (c.under (top :: rest)).otherwise = .ok (c.under (last :: rest)) :=
              hspent.otherwise
            rw [passOver, hlast] at h
            cases h
            refine ⟨last :: rest, ?_, rfl⟩
            exact List.forall_mem_cons.mpr ⟨⟨rfl, htop.outer⟩, hrest⟩
    | closing =>
        obtain ⟨top, rest, rfl⟩ := List.exists_cons_of_ne_nil (by simpa using hpart)
        cases h
        exact ⟨rest, (List.forall_mem_cons.mp habove).2, rfl⟩

/-- Where blocks are opened in a suppressed region, a line changes at most these blocks and they
stay buried; the host has no part in it. -/
def PassedOver (site : Site) (content : String) (s : Scope) (e : Engine σ)
    (above : List Block) : Prop :=
  ∃ r above', Inert r ∧ (∀ b ∈ above', b.Buried) ∧ ∀ host : Host σ,
    e.processLine host site content (s.within (s.conditions.under above)) =
      (r, s.within (s.conditions.under above'), e)

theorem LineKind.isContinuing_of_part? {content : String} {part : Part}
    (h : part? content = some part) (hpart : part ≠ .opening) : isContinuing content = true := by
  unfold part? at h
  unfold isContinuing
  cases hkind : classify content with
  | error fault => simp [hkind] at h
  | ok kind =>
      rw [hkind] at h
      cases kind with
      | text => cases h
      | toggle indent body raw => cases h
      | directive d => cases d <;> simp_all [Directive.part?, Directive.isContinuing]

/-- A line that continues a block finds one that was opened in the region, or it is passed over
like any other. -/
theorem passedOver_line {content : String} {s : Scope} {above : List Block} (site : Site)
    (e : Engine σ) (hs : s.conditions.isActive = false) (habove : ∀ b ∈ above, b.Buried)
    (hcontinuing : LineKind.isContinuing content = true → above ≠ []) :
    PassedOver site content s e above := by
  have hinner : (s.conditions.under above).isActive = false :=
    Conditions.isActive_under hs habove
  have hline (host : Host σ) :
      IsPassedOver host site e content (s.within (s.conditions.under above)) := by
    refine isPassedOver_line hinner fun hfurther b hb => .inl ?_
    obtain ⟨top, rest, rfl⟩ := List.exists_cons_of_ne_nil
      (hcontinuing (LineKind.isContinuing_of_part? hfurther Part.noConfusion))
    cases hb
    exact (habove b List.mem_cons_self).outer
  rcases (s.within (s.conditions.under above)).passOver_cases site.line content with
    ⟨fault, hfails, hkind⟩ | ⟨part, c, hpart, hc, hskips⟩
  · refine ⟨.error fault, above, .inr ⟨fault, rfl, hkind⟩, habove, ?_⟩
    intro host
    rw [hline host, hfails]
  · have hplace : part = none ∨ part = some .opening ∨ above ≠ [] := by
      rcases part with - | part
      · exact .inl rfl
      · by_cases hopening : part = .opening
        · exact .inr (.inl (congrArg some hopening))
        · have hread := LineKind.part?_of_partPassedOver hpart
          exact .inr (.inr (hcontinuing (LineKind.isContinuing_of_part? hread hopening)))
    obtain ⟨above', habove', rfl⟩ := Conditions.exists_under_of_passOver hs habove hplace hc
    refine ⟨.ok .skip, above', .inl rfl, habove', ?_⟩
    intro host
    rw [hline host, hskips]
    rfl

/-! ## Any number of lines -/

section

variable (host : Host σ) (site : Nat → Site)

/-- The outcomes of lines that are all followed, the first being line `n`; neither a failure nor
an exclusion ends them. -/
def outcomes : (n : Nat) → List String → Scope → Engine σ →
    List (Except Fault Step × Scope × Engine σ)
  | _, [], _, _ => []
  | n, content :: rest, s, e =>
    let o := e.processLine host (site n) content s
    o :: outcomes (n + 1) rest o.2.1 o.2.2

/-- Whether lines that continue a block are only reached with more than `depth` blocks open. -/
def continuesAbove (depth : Nat) : (n : Nat) → List String → Scope → Engine σ → Bool
  | _, [], _, _ => true
  | n, content :: rest, s, e =>
    let o := e.processLine host (site n) content s
    (!LineKind.isContinuing content || depth < s.conditions.depth) &&
      continuesAbove depth (n + 1) rest o.2.1 o.2.2

end

theorem outcomes_passedOver {host : Host σ} {site : Nat → Site} {n : Nat} {lines : List String}
    {s : Scope} {e : Engine σ} {above : List Block} (hs : s.conditions.isActive = false)
    (habove : ∀ b ∈ above, b.Buried)
    (hinside : continuesAbove host site s.conditions.depth n lines
      (s.within (s.conditions.under above)) e = true) :
    (∀ o ∈ outcomes host site n lines (s.within (s.conditions.under above)) e,
        ∃ r above', Inert r ∧ (∀ b ∈ above', b.Buried) ∧
          o = (r, s.within (s.conditions.under above'), e)) ∧
      ∀ host' : Host σ, outcomes host' site n lines (s.within (s.conditions.under above)) e =
        outcomes host site n lines (s.within (s.conditions.under above)) e := by
  induction lines generalizing n above with
  | nil => exact ⟨List.forall_mem_nil _, fun _ => rfl⟩
  | cons content rest ih =>
      rw [continuesAbove, Bool.and_eq_true] at hinside
      obtain ⟨hdepth, hrest⟩ := hinside
      have hcontinuing : LineKind.isContinuing content = true → above ≠ [] := by
        rintro hline rfl
        simp [hline, Conditions.under, Conditions.depth] at hdepth
      obtain ⟨r, above', hr, habove', hline⟩ :=
        passedOver_line (site n) e hs habove hcontinuing
      rw [hline host] at hrest
      obtain ⟨hall, hsame⟩ := ih habove' hrest
      constructor
      · rw [outcomes, hline host]
        exact List.forall_mem_cons.mpr ⟨⟨r, above', hr, habove', rfl⟩, hall⟩
      · intro host'
        rw [outcomes, outcomes, hline host', hline host]
        exact congrArg _ (hsame host')

/-- A region that does not count has no effect, whatever lines it contains, if those that continue
a block are only reached in blocks opened inside it.  Every line is skipped or fails because it
cannot be read or does not fit its block; the state of the region, the blocks that were open
before it, the switches and the number of emitted lines stay as they were.  So does the engine,
and the host has no part in it, as any other host gives the same outcomes. -/
theorem outcomes_of_suppressed (host : Host σ) (site : Nat → Site) (n : Nat)
    (lines : List String) (s : Scope) (e : Engine σ) (hs : s.conditions.state ≠ .active)
    (hinside : continuesAbove host site s.conditions.depth n lines s e = true) :
    (∀ r s' e', (r, s', e') ∈ outcomes host site n lines s e →
      (r = .ok .skip ∨
        ∃ fault, r = .error fault ∧ (fault.kind = .malformed ∨ fault.kind = .unbalanced)) ∧
      s'.conditions.state = s.conditions.state ∧
      s.conditions.blocks <:+ s'.conditions.blocks ∧
      s'.outputOn = s.outputOn ∧ s'.commentNext = s.commentNext ∧ s'.emitted = s.emitted ∧
      e' = e) ∧
    ∀ host' : Host σ, outcomes host' site n lines s e = outcomes host site n lines s e := by
  have hinactive := Conditions.isActive_of_state_ne hs
  have hinside' : continuesAbove host site s.conditions.depth n lines
      (s.within (s.conditions.under [])) e = true := hinside
  obtain ⟨hall, hsame⟩ := outcomes_passedOver hinactive (List.forall_mem_nil _) hinside'
  refine ⟨?_, hsame⟩
  intro r s' e' ho
  obtain ⟨r', above, hr, habove, heq⟩ := hall _ ho
  cases heq
  exact ⟨hr, Conditions.state_under hinactive habove, List.suffix_append _ _, rfl, rfl, rfl, rfl⟩

/-- A host that knows every function and counts how often it is called. -/
def countingHost : Host Nat where
  takesAction _ _ := true
  knowsFunction _ _ _ := true
  act _ _ calls := (true, calls + 1)
  call _ _ _ calls := (.ok (.bool true), calls + 1)
  wantsStop _ := false

/-- Lines of every kind, with a block among them that has two last branches. -/
def mixedLines : List String :=
  ["text /*$f()$*/", "//#define a = f()", "//#if f()", "  //#elif f()", "//#include f()", "//#else",
    "//#//", "//#else", "//$toggled", "//#endif", "//#ifdef", "//#excludeif f()", "//#-",
    "//#action f()", "//#frob"]

theorem outcomes_mixedLines :
    let site : Nat → Site := fun n => ⟨⟨"Main.java"⟩, n⟩
    let s : Scope := ⟨⟨[⟨false, false, true, false, 3⟩], false⟩, true, true, 2⟩
    let e : Engine Nat := { env := .forFile [] [] [] ⟨0, 0⟩ false, host := 0 }
    s.conditions.state ≠ .active ∧
      continuesAbove countingHost site s.conditions.depth 4 mixedLines s e = true ∧
      ∀ r s' e', (r, s', e') ∈ outcomes countingHost site 4 mixedLines s e →
        s'.conditions.state = .suppressedByCondition ∧ s'.commentNext = true ∧ e' = e := by
  intro site s e
  have hs : s.conditions.state ≠ .active := by decide
  have hinside : continuesAbove countingHost site s.conditions.depth 4 mixedLines s e = true := by
    decide +kernel
  refine ⟨hs, hinside, ?_⟩
  intro r s' e' ho
  obtain ⟨-, hstate, -, -, hcomment, -, he⟩ :=
    (outcomes_of_suppressed countingHost site 4 mixedLines s e hs hinside).1 r s' e' ho
  exact ⟨hstate, hcomment, he⟩

end Preprocessor
