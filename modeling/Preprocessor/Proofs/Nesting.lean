/-
Conditional directives are accepted exactly when they are well nested.

Whether the conditional directives of a file fit together is a matter of the directives alone.
They form a word of a small grammar, and a stack that remembers of each open block only whether
its last branch has begun accepts the words of that grammar.  The open blocks of a file that is
followed move as this stack does, in regions that count and in those that do not, so the values of
conditions decide which branches count and never whether the file is accepted.

The grammar says nothing of files whose processing ends for another reason: an exclusion ends a
file early, an included file may fail by itself, and so may a condition that has no value.
`undisturbed` leaves them out, by following the lines; what it leaves open is whether the
directives fit, and that the grammar decides.
-/
import Preprocessor.Proofs.Inclusion
import Preprocessor.Proofs.LineOutcomes
import Preprocessor.Proofs.OpenBlocks

namespace Preprocessor

variable {σ : Type}

/-! ## The grammar -/

namespace Part

mutual

/-- Blocks, one after the other. -/
inductive IsBody : List Part → Prop
  | nil : IsBody []
  | cons {block rest : List Part} : IsBlock block → IsBody rest → IsBody (block ++ rest)

inductive IsBlock : List Part → Prop
  | block {body branches ending : List Part} : IsBody body → IsFurther branches →
      IsEnding ending → IsBlock (opening :: (body ++ (branches ++ (ending ++ [closing]))))

inductive IsFurther : List Part → Prop
  | nil : IsFurther []
  | cons {body rest : List Part} : IsBody body → IsFurther rest →
      IsFurther (further :: (body ++ rest))

/-- A last branch, or none. -/
inductive IsEnding : List Part → Prop
  | none : IsEnding []
  | last {body : List Part} : IsBody body → IsEnding (last :: body)

end

/-! ## The stack -/

/-- The open blocks after a directive, the innermost first, each with whether its last branch has
begun; or nothing, if the directive does not fit. -/
def follow : List Bool → Part → Option (List Bool)
  | begun, opening => some (false :: begun)
  | false :: begun, further => some (false :: begun)
  | false :: begun, last => some (true :: begun)
  | _ :: begun, closing => some begun
  | _, _ => none

def followAll : List Bool → List Part → Option (List Bool)
  | begun, [] => some begun
  | begun, p :: ps => (follow begun p).bind (followAll · ps)

mutual

theorem followAll_body : ∀ {ps : List Part}, IsBody ps → ∀ (begun : List Bool) (rest : List Part),
    followAll begun (ps ++ rest) = followAll begun rest
  | _, .nil, _, _ => rfl
  | _, .cons hblock hbody, begun, rest => by
      rw [List.append_assoc, followAll_block hblock, followAll_body hbody]

theorem followAll_block : ∀ {ps : List Part}, IsBlock ps →
    ∀ (begun : List Bool) (rest : List Part), followAll begun (ps ++ rest) = followAll begun rest
  | _, .block hbody hfurther hending, begun, rest => by
      obtain ⟨b, hb⟩ := followAll_ending hending begun (closing :: rest)
      simp only [List.cons_append, List.append_assoc, List.nil_append, followAll, follow,
        Option.bind_some]
      rw [followAll_body hbody, followAll_further hfurther, hb]
      rfl

theorem followAll_further : ∀ {ps : List Part}, IsFurther ps →
    ∀ (begun : List Bool) (rest : List Part),
      followAll (false :: begun) (ps ++ rest) = followAll (false :: begun) rest
  | _, .nil, _, _ => rfl
  | _, .cons hbody hfurther, begun, rest => by
      simp only [List.cons_append, List.append_assoc, followAll, follow, Option.bind_some]
      rw [followAll_body hbody, followAll_further hfurther]

theorem followAll_ending : ∀ {ps : List Part}, IsEnding ps →
    ∀ (begun : List Bool) (rest : List Part), ∃ b,
      followAll (false :: begun) (ps ++ rest) = followAll (b :: begun) rest
  | _, .none, _, _ => ⟨false, rfl⟩
  | _, .last hbody, begun, rest => by
      refine ⟨true, ?_⟩
      simp only [List.cons_append, followAll, follow, Option.bind_some]
      rw [followAll_body hbody]

end

/-- What may follow with blocks open: what is left of each of them, and a body after the
outermost. -/
inductive Remains : List Bool → List Part → Prop
  | body {ps : List Part} : IsBody ps → Remains [] ps
  | branches {begun : List Bool} {body branches ending rest : List Part} : IsBody body →
      IsFurther branches → IsEnding ending → Remains begun rest →
      Remains (false :: begun) (body ++ (branches ++ (ending ++ closing :: rest)))
  | ending {begun : List Bool} {body rest : List Part} : IsBody body → Remains begun rest →
      Remains (true :: begun) (body ++ closing :: rest)

theorem Remains.block {begun : List Bool} {block rest : List Part} (hblock : IsBlock block)
    (h : Remains begun rest) : Remains begun (block ++ rest) := by
  cases h with
  | body hbody => exact .body (.cons hblock hbody)
  | branches hbody hbranches hending hrest =>
      rw [← List.append_assoc]
      exact .branches (.cons hblock hbody) hbranches hending hrest
  | ending hbody hrest =>
      rw [← List.append_assoc]
      exact .ending (.cons hblock hbody) hrest

theorem Remains.cons {p : Part} {begun begun' : List Bool} {ps : List Part}
    (hp : follow begun p = some begun') (h : Remains begun' ps) : Remains begun (p :: ps) := by
  cases p with
  | opening =>
      cases hp
      cases h with
      | @branches _ body branches ending rest hbody hbranches hending hrest =>
          have hblock := hrest.block (.block hbody hbranches hending)
          simpa only [List.cons_append, List.append_assoc, List.nil_append] using hblock
  | further =>
      rcases begun with - | ⟨_ | _, begun⟩ <;> cases hp
      cases h with
      | branches hbody hbranches hending hrest =>
          have hmore := hrest.branches .nil (.cons hbody hbranches) hending
          simpa only [List.cons_append, List.append_assoc, List.nil_append] using hmore
  | last =>
      rcases begun with - | ⟨_ | _, begun⟩ <;> cases hp
      cases h with
      | ending hbody hrest => exact hrest.branches .nil .nil (.last hbody)
  | closing =>
      rcases begun with - | ⟨_ | _, begun⟩ <;> cases hp
      · exact h.branches .nil .nil .none
      · exact h.ending .nil

theorem remains_of_followAll {begun : List Bool} {ps : List Part}
    (h : followAll begun ps = some []) : Remains begun ps := by
  induction ps generalizing begun with
  | nil =>
      cases h
      exact .body .nil
  | cons p ps ih =>
      obtain ⟨begun', hp, hps⟩ := Option.bind_eq_some_iff.mp h
      exact (ih hps).cons hp

/-- The stack accepts the words of the grammar. -/
theorem followAll_eq_nil_iff {ps : List Part} : followAll [] ps = some [] ↔ IsBody ps := by
  constructor
  · intro h
    cases remains_of_followAll h with
    | body hbody => exact hbody
  · intro h
    have hrun := followAll_body h [] []
    rwa [List.append_nil] at hrun

end Part

/-! ## The open blocks -/

/-- Of each open block, the innermost first, whether its last branch has begun. -/
def Conditions.begun (c : Conditions) : List Bool :=
  c.blocks.map Block.elseSeen

/-- What a line leaves open; it may be no conditional directive. -/
def LineKind.follow (begun : List Bool) (content : String) : Option (List Bool) :=
  (part? content).elim (some begun) (Part.follow begun)

def parts (lines : List Line) : List Part :=
  lines.filterMap fun line => LineKind.part? line.content

theorem followAll_parts_cons (begun : List Bool) (line : Line) (rest : List Line) :
    Part.followAll begun (parts (line :: rest)) =
      (LineKind.follow begun line.content).bind (Part.followAll · (parts rest)) := by
  rw [parts, List.filterMap_cons, LineKind.follow]
  cases LineKind.part? line.content <;> rfl

namespace Conditions

variable {c c' : Conditions} {fault : Fault}

theorem follow_of_moves {line : Nat} {part : Option Part} (h : c.Moves line part c') :
    part.elim (some c.begun) (Part.follow c.begun) = some c'.begun := by
  cases h with
  | stay => rfl
  | exclude => rfl
  | opening selected => rfl
  | further active taken helse => simp [begun, helse, Part.follow]
  | last active helse => simp [begun, helse, Part.follow]
  | closing => rfl

theorem follow_of_elseIf_error (h : c.elseIf = .error fault) :
    Part.follow c.begun .further = none := by
  rcases c with ⟨_ | ⟨top, rest⟩, excluded⟩
  · rfl
  · cases helse : top.elseSeen with
    | true => simp [begun, helse, Part.follow]
    | false =>
        simp only [elseIf, helse, Bool.false_eq_true, if_false] at h
        split at h <;> cases h

theorem follow_of_otherwise_error (h : c.otherwise = .error fault) :
    Part.follow c.begun .last = none := by
  rcases c with ⟨_ | ⟨top, rest⟩, excluded⟩
  · rfl
  · cases helse : top.elseSeen with
    | true => simp [begun, helse, Part.follow]
    | false => simp [otherwise, helse] at h

theorem follow_of_close_error (h : c.close = .error fault) :
    Part.follow c.begun .closing = none := by
  rcases c with ⟨_ | ⟨top, rest⟩, excluded⟩
  · rfl
  · cases h

end Conditions

section

variable {host : Host σ} {site : Site} {content : String} {s s' : Scope} {e e' : Engine σ}
  {step : Step} {fault : Fault}

theorem follow_of_processLine (h : e.processLine host site content s = (.ok step, s', e')) :
    LineKind.follow s.conditions.begun content = some s'.conditions.begun :=
  Conditions.follow_of_moves (moves_of_processLine h)

theorem kind_ne_of_settle {expr : String} {pending : Conditions.Pending}
    (h : s.settle (EngineM.condition host site expr) e pending = (.error fault, s', e')) :
    fault.kind ≠ .unbalanced := by
  cases pending with
  | settled c => cases h
  | asks next =>
      unfold Scope.settle at h
      dsimp only at h
      split at h
      · cases h
      · rename_i fault' e₁ hrun
        cases h
        exact Fault.kind_ne_of_isOfEffect ((EngineM.ensures_condition host site expr).fault hrun)

/-- A line is unbalanced only if no line of its kind could stand there. -/
theorem follow_of_unbalanced (h : e.processLine host site content s = (.error fault, s', e'))
    (hfault : fault.kind = .unbalanced) :
    LineKind.follow s.conditions.begun content = none := by
  have hcontinuing := isContinuing_of_processLine h hfault
  unfold LineKind.isContinuing at hcontinuing
  unfold LineKind.follow LineKind.part?
  cases hkind : LineKind.classify content with
  | error fault =>
      rw [hkind] at hcontinuing
      cases hcontinuing
  | ok kind =>
      rw [hkind] at hcontinuing
      cases kind with
      | directive d =>
          cases d with
          | elseIf expr =>
              rw [processLine_of_elseIf host site hkind] at h
              split at h
              · rename_i herror
                exact Conditions.follow_of_elseIf_error herror
              · exact absurd hfault (kind_ne_of_settle h)
          | otherwise =>
              rw [processLine_of_otherwise host site hkind] at h
              split at h
              · rename_i herror
                exact Conditions.follow_of_otherwise_error herror
              · cases h
          | endIf =>
              rw [processLine_of_endIf host site hkind] at h
              split at h
              · rename_i herror
                exact Conditions.follow_of_close_error herror
              · cases h
          | _ => cases hcontinuing
      | _ => cases hcontinuing

end

/-! ## Files -/

/-- Whether lines of a file, of which the first is line `n`, are followed with no included file,
no exclusion and no failure other than that of a line that does not fit the open blocks. -/
def undisturbed (host : Host σ) (path : Path) : (n : Nat) → List Line → Scope → Engine σ → Bool
  | _, [], _, _ => true
  | n, line :: rest, s, e =>
    match e.processLine host ⟨path, n⟩ line.content s with
    | (.ok (.emit _), s', e') => undisturbed host path (n + 1) rest s' e'
    | (.ok .skip, s', e') => undisturbed host path (n + 1) rest s' e'
    | (.ok _, _, _) => false
    | (.error fault, _, _) => fault.kind == .unbalanced

namespace Source

variable {host : Host σ} {t : FileTree} {options : Options}

/-- Undisturbed lines are all followed and leave open what the directives among them do, or one of
them does not fit and neither do the directives. -/
theorem followLines_of_undisturbed (descend : Trail → Path → Output → RunM σ Output)
    (trail : Trail) {path : Path} {n : Nat} {lines : List Line} {s : Scope} (out : Output)
    {e : Engine σ} (h : undisturbed host path n lines s e = true) :
    (∃ s' out' e', (followLines host t options descend trail path n lines s out).run e =
        (.ok (.completed, s', out'), e') ∧
      Part.followAll s.conditions.begun (parts lines) = some s'.conditions.begun) ∨
    ∃ d e', (followLines host t options descend trail path n lines s out).run e = (.error d, e') ∧
      d.fault.kind = .unbalanced ∧ Part.followAll s.conditions.begun (parts lines) = none := by
  induction lines generalizing n s out e with
  | nil => exact .inl ⟨s, out, e, rfl, rfl⟩
  | cons line rest ih =>
      rw [undisturbed] at h
      rw [run_followLines_cons, run_followLines_singleton, followAll_parts_cons]
      rcases hline : e.processLine host ⟨path, n⟩ line.content s with ⟨r, s₁, e₁⟩
      rw [hline] at h
      cases r with
      | error fault =>
          have hfault : fault.kind = .unbalanced := beq_iff_eq.mp h
          rw [follow_of_unbalanced hline hfault]
          exact .inr ⟨_, _, rfl, hfault, rfl⟩
      | ok step =>
          rw [follow_of_processLine hline]
          cases step with
          | emit text => exact ih _ h
          | skip => exact ih _ h
          | includeFile target => cases h
          | exclude => cases h

/-- A file whose lines are undisturbed is accepted if its directives are well nested, and is
unbalanced if they are not. -/
theorem process_of_undisturbed {path : Path} {decoded : Decoded}
    (hread : readText t options path = .ok decoded) (room : Nat) (trail : Trail) (out : Output)
    {e : Engine σ} (h : undisturbed host path 0 (Text.lines decoded.text) {} e = true) :
    (Part.IsBody (parts (Text.lines decoded.text)) ∧ ∃ out' e',
      (process host t options (room + 1) trail path out).run e =
        (.ok (.completed, decoded.bom, out'), e')) ∨
    (¬ Part.IsBody (parts (Text.lines decoded.text)) ∧ ∃ d e',
      (process host t options (room + 1) trail path out).run e = (.error d, e') ∧
        d.fault.kind = .unbalanced) := by
  rw [process_succ, processWith, hread]
  dsimp only
  rw [← Part.followAll_eq_nil_iff]
  rcases followLines_of_undisturbed (descendWithin host t options room) trail out h with
    ⟨s, out', e', hrun, hparts⟩ | ⟨d, e', hrun, hkind, hparts⟩
  · rw [run_bind_of_ok hrun]
    have hparts' : Part.followAll [] (parts (Text.lines decoded.text)) =
        some s.conditions.begun := hparts
    rw [hparts']
    rcases s.conditions with ⟨_ | ⟨top, rest⟩, excluded⟩
    · exact .inl ⟨rfl, out', e', rfl⟩
    · refine .inr ⟨?_, _, e', rfl, rfl⟩
      intro hnil
      cases hnil
  · rw [run_bind_of_error hrun]
    have hparts' : Part.followAll [] (parts (Text.lines decoded.text)) = none := hparts
    rw [hparts']
    refine .inr ⟨?_, d, e', rfl, hkind⟩
    intro hnil
    cases hnil

/-- A file in which no evaluation and no other directive fails, nothing is included and no
exclusion takes place is not unbalanced, by a line or at its end, if and only if its conditional
directives are well nested, and is then accepted.  Its verdict therefore does not depend on the
variables, although they decide which branches count. -/
theorem process_balanced_iff_nested {t : FileTree} {options : Options} {path : Path}
    {decoded : Decoded} (hread : readText t options path = .ok decoded) :
    (∀ (host : Host σ) (room : Nat) (trail : Trail) (out : Output) (e : Engine σ),
      undisturbed host path 0 (Text.lines decoded.text) {} e = true →
      ((∀ d e', (process host t options (room + 1) trail path out).run e = (.error d, e') →
          d.fault.kind ≠ .unbalanced) ↔
        Part.IsBody (parts (Text.lines decoded.text))) ∧
      (Part.IsBody (parts (Text.lines decoded.text)) → ∃ out' e',
        (process host t options (room + 1) trail path out).run e =
          (.ok (.completed, decoded.bom, out'), e'))) ∧
    ∀ (host : Host σ) (room : Nat) (trail : Trail) (out : Output) (e₁ e₂ : Engine σ),
      undisturbed host path 0 (Text.lines decoded.text) {} e₁ = true →
      undisturbed host path 0 (Text.lines decoded.text) {} e₂ = true →
      ((∃ d e', (process host t options (room + 1) trail path out).run e₁ = (.error d, e') ∧
          d.fault.kind = .unbalanced) ↔
        ∃ d e', (process host t options (room + 1) trail path out).run e₂ = (.error d, e') ∧
          d.fault.kind = .unbalanced) := by
  have hverdict {host : Host σ} {room : Nat} {trail : Trail} {out : Output} {e : Engine σ}
      (h : undisturbed host path 0 (Text.lines decoded.text) {} e = true) :
      (∃ d e', (process host t options (room + 1) trail path out).run e = (.error d, e') ∧
        d.fault.kind = .unbalanced) ↔ ¬ Part.IsBody (parts (Text.lines decoded.text)) := by
    rcases process_of_undisturbed hread room trail out h with
      ⟨hbody, out', e', hrun⟩ | ⟨hbody, hrun⟩
    · rw [hrun]
      refine iff_of_false ?_ (not_not_intro hbody)
      rintro ⟨d, e', herror, -⟩
      cases herror
    · exact iff_of_true hrun hbody
  refine ⟨fun host room trail out e h => ⟨?_, fun hbody => ?_⟩,
    fun host room trail out e₁ e₂ h₁ h₂ => (hverdict h₁).trans (hverdict h₂).symm⟩
  · rw [← not_iff_not, ← hverdict h]
    push Not
    rfl
  · rcases process_of_undisturbed hread room trail out h with ⟨-, haccepted⟩ | ⟨hnot, -⟩
    · exact haccepted
    · exact absurd hbody hnot

/-- A file with a block of three branches that has another in its first. -/
def threeBranches : String :=
  "//#if A\n//#ifdef B\nx\n//#else\n//#endif\n//#elif B\ny\n//#else\nz\n//#endif\n"

theorem process_threeBranches :
    let t : FileTree :=
      { entries := [(["main"], .file (threeBranches.toList.map fun c => .ofNat c.toNat))] }
    let host : Host Unit := .declining Unit
    let e : Bool → Engine Unit := fun a =>
      ⟨⟨[.store "file" [("A", .bool a), ("B", .bool true)]], false⟩, (), none, #[]⟩
    let run := fun a => (process host t {} 1 [⟨⟨"main"⟩, 0⟩] ⟨"main"⟩ {}).run (e a)
    readText t {} ⟨"main"⟩ = .ok ⟨threeBranches, false⟩ ∧
      (∀ a, undisturbed host ⟨"main"⟩ 0 (Text.lines threeBranches) {} (e a) = true) ∧
      Part.IsBody (parts (Text.lines threeBranches)) ∧
      ∀ a, ∃ out e', run a = (.ok (.completed, false, out), e') := by
  intro t host e run
  have hread : readText t {} ⟨"main"⟩ = .ok ⟨threeBranches, false⟩ := by with_unfolding_all rfl
  have hundisturbed : ∀ a,
      undisturbed host ⟨"main"⟩ 0 (Text.lines threeBranches) {} (e a) = true := by
    decide +kernel
  obtain ⟨hbalanced, -⟩ := process_balanced_iff_nested (σ := Unit) hread
  have hrun : (run true).1 = .ok (.completed, false, ⟨"x\n", 1⟩) := by with_unfolding_all rfl
  have hbody : Part.IsBody (parts (Text.lines threeBranches)) := by
    refine (hbalanced host 0 [⟨⟨"main"⟩, 0⟩] {} (e true) (hundisturbed true)).1.mp ?_
    intro d e' herror
    cases hrun.symm.trans (congrArg Prod.fst herror)
  exact ⟨hread, hundisturbed, hbody,
    fun a => (hbalanced host 0 [⟨⟨"main"⟩, 0⟩] {} (e a) (hundisturbed a)).2 hbody⟩

end Source

end Preprocessor
