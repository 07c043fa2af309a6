/-
What a line does that is passed over.

In a region that does not count, only the part that a line plays in the blocks matters.  Which part
that is can be read off the line, and what becomes of the open blocks follows from them and the
part alone, as long as the innermost block has nothing left to decide: no condition is asked for,
so that neither the expression on the line nor the variables nor the host can make a difference.
-/
import Preprocessor.Proofs.BlockMoves
import Preprocessor.Proofs.BlockRefinement
import Preprocessor.Proofs.LineOutcomes

namespace Preprocessor

variable {σ : Type}

/-! ## Without asking -/

/-- The part that a line plays in the blocks, as far as a line is looked at that does not count: a
directive with a keyword that is none of theirs plays none, whether it can be read or not. -/
def LineKind.partPassedOver (content : String) : Except Fault (Option Part) :=
  if isPlainDirective content then .ok none
  else (classify content).map fun _ => part? content

theorem LineKind.faults_partPassedOver (content : String) :
    FaultsIn Fault.isOfText (partPassedOver content) :=
  .ite (.ok _) ((faults_classify content).map _)

/-- A block whose further branches are out of the question. -/
def Block.Decided (b : Block) : Prop :=
  b.outerActive = false ∨ b.taken = true

namespace Conditions

/-- What becomes of the blocks if no condition holds. -/
def Pending.unasked : Pending → Conditions
  | settled c => c
  | asks next => next false

/-- The open blocks after a line that plays a part in them or none, if no condition holds. -/
def passOver (c : Conditions) (line : Nat) : Option Part → Except Fault Conditions
  | none => .ok c
  | some .opening => .ok (c.openBlock line).unasked
  | some .further => c.elseIf.map Pending.unasked
  | some .last => c.otherwise
  | some .closing => c.close

theorem faults_passOver (c : Conditions) (line : Nat) (part : Option Part) :
    FaultsIn Fault.isOfBlocks (c.passOver line part) := by
  rcases part with - | part
  · exact .ok _
  · cases part with
    | opening => exact .ok _
    | further => exact c.faults_elseIf.map _
    | last => exact c.faults_otherwise
    | closing => exact c.faults_close

/-- A block that is decided is continued without a question. -/
theorem exists_settled_of_elseIf {c : Conditions} {pending : Pending}
    (htop : ∀ b, c.blocks.head? = some b → b.Decided) (h : c.elseIf = .ok pending) :
    ∃ c', pending = .settled c' := by
  rcases c with ⟨blocks, excluded⟩
  cases blocks with
  | nil => cases h
  | cons top rest =>
      cases helse : top.elseSeen with
      | true => simp [elseIf, helse] at h
      | false =>
          have hspent : top.Spent := ⟨helse, htop top rfl⟩
          rw [hspent.elseIf] at h
          cases h
          exact ⟨_, rfl⟩

end Conditions

/-- What a line does that is passed over: it changes at most the open blocks. -/
def Scope.passOver (s : Scope) (line : Nat) (content : String) : Except Fault Step × Scope :=
  match LineKind.partPassedOver content with
  | .error fault => (.error fault, s)
  | .ok part =>
    match s.conditions.passOver line part with
    | .error fault => (.error fault, s)
    | .ok c => (.ok .skip, s.within c)

/-- The outcome of a line that is not followed: it is skipped, it cannot be read, or its block has
no such branch. -/
def Inert (r : Except Fault Step) : Prop :=
  r = .ok .skip ∨
    ∃ fault, r = .error fault ∧ (fault.kind = .malformed ∨ fault.kind = .unbalanced)

/-- A line that is passed over leaves the scope alone and fails, or is skipped with the blocks that
its part makes of them. -/
theorem Scope.passOver_cases (s : Scope) (line : Nat) (content : String) :
    (∃ fault, s.passOver line content = (.error fault, s) ∧
        (fault.kind = .malformed ∨ fault.kind = .unbalanced)) ∨
      ∃ part c, LineKind.partPassedOver content = .ok part ∧
        s.conditions.passOver line part = .ok c ∧
        s.passOver line content = (.ok .skip, s.within c) := by
  unfold passOver
  cases hpart : LineKind.partPassedOver content with
  | error fault =>
      have hfault := LineKind.faults_partPassedOver content fault hpart
      exact .inl ⟨fault, rfl, .inl (Fault.kind_of_isOfText hfault)⟩
  | ok part =>
      dsimp only
      cases hc : s.conditions.passOver line part with
      | error fault =>
          have hfault := s.conditions.faults_passOver line part fault hc
          exact .inl ⟨fault, rfl, .inr (Fault.kind_of_isOfBlocks hfault)⟩
      | ok c => exact .inr ⟨part, c, rfl, hc, rfl⟩

/-! ## One line -/

theorem Directive.part?_of_not_conditional {d : Directive} (h : d.isConditional = false) :
    d.part? = none := by
  cases d <;> simp_all [isConditional, part?]

theorem LineKind.partPassedOver_of_ordinary {content : String} (h : isOrdinary content = true) :
    partPassedOver content = .ok none := by
  unfold isOrdinary at h
  unfold partPassedOver part?
  cases hkind : classify content with
  | error fault =>
      rw [hkind] at h
      rw [if_pos h]
  | ok kind =>
      rw [hkind] at h
      cases kind with
      | text => exact ite_self _
      | toggle indent body raw => exact ite_self _
      | directive d =>
          have hpart := Directive.part?_of_not_conditional (by simpa using h)
          simp [hpart, Except.map]

theorem LineKind.partPassedOver_of_conditional {content : String} {d : Directive}
    (h : classify content = .ok (.directive d)) (hd : d.isConditional = true) :
    partPassedOver content = .ok d.part? := by
  simp [partPassedOver, part?, h, isPlainDirective_of_conditional h hd, Except.map]

theorem LineKind.part?_of_partPassedOver {content : String} {part : Part}
    (h : partPassedOver content = .ok (some part)) : part? content = some part := by
  unfold partPassedOver at h
  split at h
  · cases h
  · obtain ⟨kind, -, hpart⟩ := exists_of_map_eq_ok h
    exact hpart

section

variable (host : Host σ) (site : Site) {content : String} {s : Scope} (e : Engine σ)

/-- The line does what can be told without its expression, the variables and the host. -/
def IsPassedOver (content : String) (s : Scope) : Prop :=
  e.processLine host site content s =
    ((s.passOver site.line content).1, (s.passOver site.line content).2, e)

variable {host site e}

theorem isPassedOver_of_skip {part : Option Part} {c : Conditions}
    (hpart : LineKind.partPassedOver content = .ok part)
    (hc : s.conditions.passOver site.line part = .ok c)
    (hline : e.processLine host site content s = (.ok .skip, s.within c, e)) :
    IsPassedOver host site e content s := by
  rw [IsPassedOver, hline, Scope.passOver, hpart]
  dsimp only
  rw [hc]

theorem isPassedOver_of_fault {part : Option Part} {fault : Fault}
    (hpart : LineKind.partPassedOver content = .ok part)
    (hc : s.conditions.passOver site.line part = .error fault)
    (hline : e.processLine host site content s = (.error fault, s, e)) :
    IsPassedOver host site e content s := by
  rw [IsPassedOver, hline, Scope.passOver, hpart]
  dsimp only
  rw [hc]

theorem isPassedOver_of_ordinary (hline : LineKind.isOrdinary content = true)
    (hs : s.conditions.isActive = false) : IsPassedOver host site e content s :=
  isPassedOver_of_skip (LineKind.partPassedOver_of_ordinary hline) rfl
    (processLine_of_suppressed host site hline hs)

theorem isPassedOver_of_opening (t : Test)
    (hkind : LineKind.classify content = .ok (.directive t.directive))
    (hs : s.conditions.isActive = false) : IsPassedOver host site e content s := by
  have hpart : LineKind.partPassedOver content = .ok (some .opening) := by
    rw [LineKind.partPassedOver_of_conditional hkind (by cases t <;> rfl)]
    cases t <;> rfl
  refine isPassedOver_of_skip hpart rfl ?_
  rw [processLine_of_opening host site t hkind, Conditions.openBlock_of_suppressed hs]
  rfl

theorem isPassedOver_of_elseIf {expr : String}
    (hkind : LineKind.classify content = .ok (.directive (.elseIf expr)))
    (htop : ∀ b, s.conditions.blocks.head? = some b → b.Decided) :
    IsPassedOver host site e content s := by
  have hpart : LineKind.partPassedOver content = .ok (some .further) :=
    LineKind.partPassedOver_of_conditional hkind rfl
  have hmap : s.conditions.passOver site.line (some .further) =
      s.conditions.elseIf.map Conditions.Pending.unasked := rfl
  have hline := processLine_of_elseIf host site hkind s e
  cases helif : s.conditions.elseIf with
  | error fault =>
      rw [helif] at hmap hline
      exact isPassedOver_of_fault hpart hmap hline
  | ok pending =>
      obtain ⟨c, rfl⟩ := Conditions.exists_settled_of_elseIf htop helif
      rw [helif] at hmap hline
      exact isPassedOver_of_skip hpart hmap hline

theorem isPassedOver_of_otherwise
    (hkind : LineKind.classify content = .ok (.directive .otherwise)) :
    IsPassedOver host site e content s := by
  have hpart : LineKind.partPassedOver content = .ok (some .last) :=
    LineKind.partPassedOver_of_conditional hkind rfl
  have hline := processLine_of_otherwise host site hkind s e
  cases hlast : s.conditions.otherwise with
  | error fault =>
      rw [hlast] at hline
      exact isPassedOver_of_fault hpart hlast hline
  | ok c =>
      rw [hlast] at hline
      exact isPassedOver_of_skip hpart hlast hline

theorem isPassedOver_of_endIf (hkind : LineKind.classify content = .ok (.directive .endIf)) :
    IsPassedOver host site e content s := by
  have hpart : LineKind.partPassedOver content = .ok (some .closing) :=
    LineKind.partPassedOver_of_conditional hkind rfl
  have hline := processLine_of_endIf host site hkind s e
  cases hclose : s.conditions.close with
  | error fault =>
      rw [hclose] at hline
      exact isPassedOver_of_fault hpart hclose hline
  | ok c =>
      rw [hclose] at hline
      exact isPassedOver_of_skip hpart hclose hline

/-- Every line in a region that does not count is passed over, if it finds a decided block where it
goes to a further branch. -/
theorem isPassedOver_line (hs : s.conditions.isActive = false)
    (htop : LineKind.part? content = some .further →
      ∀ b, s.conditions.blocks.head? = some b → b.Decided) :
    IsPassedOver host site e content s := by
  cases hkind : LineKind.classify content with
  | error fault =>
      cases hplain : LineKind.isPlainDirective content with
      | true =>
          exact isPassedOver_of_ordinary (by rw [LineKind.isOrdinary, hkind]; exact hplain) hs
      | false =>
          rw [IsPassedOver, processLine_eq, hkind, hplain, Bool.and_false]
          simp [Scope.passOver, LineKind.partPassedOver, hkind, hplain, Except.map]
  | ok kind =>
      cases kind with
      | text => exact isPassedOver_of_ordinary (by rw [LineKind.isOrdinary, hkind]) hs
      | toggle indent body raw =>
          exact isPassedOver_of_ordinary (by rw [LineKind.isOrdinary, hkind]) hs
      | directive d =>
          cases d with
          | ifTrue expr => exact isPassedOver_of_opening (.holds expr) hkind hs
          | ifDefined name => exact isPassedOver_of_opening (.isDefined name) hkind hs
          | ifNotDefined name => exact isPassedOver_of_opening (.isNotDefined name) hkind hs
          | elseIf expr =>
              have hfurther : LineKind.part? content = some .further := by
                rw [LineKind.part?, hkind]
                rfl
              exact isPassedOver_of_elseIf hkind (htop hfurther)
          | otherwise => exact isPassedOver_of_otherwise hkind
          | endIf => exact isPassedOver_of_endIf hkind
          | _ => exact isPassedOver_of_ordinary (by rw [LineKind.isOrdinary, hkind]; rfl) hs

end

end Preprocessor
