/-
The stack of open blocks implements block structure.

Feeding the lines of a block program and running its tree end alike.  The proof goes by the
tree.  A region that does not count is passed over line by line with nothing changed, and the
block that is open at its start is open again at its end; a region that counts is followed in
step with the tree, the blocks around it being the same before and after.

The induction is on programs and on the further branches of a block at once.  It is stated for any
blocks around the program, so that the lines of a branch are the same case as those of a whole
file.  The further branches need two statements.  A block that has selected a branch is spent: it
asks for no more conditions, and its other branches only close it.  One that has not is undecided,
and then its next condition is asked for in both readings.
-/
import Preprocessor.Proofs.BlockProgram

namespace Preprocessor

variable {σ α : Type} (host : Host σ) (site : Nat → Site)

/-- The state of feeding with other blocks open. -/
def Feed.within (f : Feed σ) (c : Conditions) : Feed σ :=
  { f with scope := f.scope.within c }

theorem feed_append (n : Nat) (xs ys : List String) :
    feed host site n (xs ++ ys) =
      (do feed host site n xs; feed host site (n + xs.length) ys) := by
  induction xs generalizing n with
  | nil => simp [feed]
  | cons x xs ih =>
      simp only [List.cons_append, feed, ih, bind_assoc, List.length_cons]
      rw [show n + 1 + xs.length = n + (xs.length + 1) by omega]

/-! ## Passing over a region that does not count -/

theorem run_feedLine {n : Nat} {content : String} {f : Feed σ} {r : Except Fault Step}
    {s : Scope} {e : Engine σ}
    (h : f.engine.processLine host (site n) content f.scope = (r, s, e)) :
    (feedLine host site n content).run f =
      (Halt.verdict n r, ⟨s, e, f.handedOn ++ Step.handedOn r⟩) := by
  unfold feedLine
  simp only [ExceptT.run, ExceptT.mk, h]

theorem run_feedLine_of_skip {n : Nat} {content : String} {f : Feed σ} {c : Conditions}
    (h : f.engine.processLine host (site n) content f.scope =
      (.ok .skip, f.scope.within c, f.engine)) :
    (feedLine host site n content).run f = (.ok (), f.within c) := by
  rw [run_feedLine host site h]
  simp [Halt.verdict, Step.handedOn, Feed.within]

theorem run_feed_cons {n : Nat} {content : String} {rest : List String} {f f' : Feed σ}
    (h : (feedLine host site n content).run f = (.ok (), f')) :
    (feed host site n (content :: rest)).run f = (feed host site (n + 1) rest).run f' :=
  run_bind_of_ok h

theorem run_feed_append {n : Nat} {xs ys : List String} {f f' : Feed σ}
    (h : (feed host site n xs).run f = (.ok (), f')) :
    (feed host site n (xs ++ ys)).run f = (feed host site (n + xs.length) ys).run f' := by
  rw [feed_append]
  exact run_bind_of_ok h

namespace Conditions

/-- The blocks with one of them begun on a branch that does not count. -/
def skipping (c : Conditions) (line : Nat) : Conditions :=
  { c with blocks := ⟨false, false, false, false, line⟩ :: c.blocks }

theorem openBlock_of_suppressed {c : Conditions} (h : c.isActive = false) (line : Nat) :
    c.openBlock line = .settled (c.skipping line) := by
  simp [openBlock, push, skipping, h]

end Conditions

/-- A block of which no further branch can be selected. -/
structure Block.Spent (b : Block) : Prop where
  noElse : b.elseSeen = false
  decided : b.outerActive = false ∨ b.taken = true

namespace Block.Spent

variable {b : Block} {rest : List Block} {excluded : Bool}

theorem elseIf (h : b.Spent) :
    Conditions.elseIf ⟨b :: rest, excluded⟩ =
      .ok (.settled ⟨{ b with active := false } :: rest, excluded⟩) := by
  have hdecided : (!b.outerActive || b.taken) = true := by
    rcases h.decided with hb | hb <;> simp [hb]
  simp [Conditions.elseIf, h.noElse, hdecided]

theorem otherwise (h : b.Spent) :
    Conditions.otherwise ⟨b :: rest, excluded⟩ =
      .ok ⟨{ b with active := false, taken := true, elseSeen := true } :: rest, excluded⟩ := by
  have hactive : (b.outerActive && !b.taken) = false := by
    rcases h.decided with hb | hb <;> simp [hb]
  simp [Conditions.otherwise, h.noElse, hactive]

theorem further (h : b.Spent) : Block.Spent { b with active := false } :=
  ⟨h.noElse, h.decided⟩

end Block.Spent

theorem run_feed_endIf {n : Nat} (l : DirectiveLine .endIf) {f : Feed σ} {b : Block}
    {rest : List Block} {excluded : Bool} (hf : f.scope.conditions = ⟨b :: rest, excluded⟩) :
    (feed host site n [l.content]).run f = (.ok (), f.within ⟨rest, excluded⟩) := by
  have hline : (feedLine host site n l.content).run f =
      (.ok (), f.within ⟨rest, excluded⟩) := by
    refine run_feedLine_of_skip host site ?_
    rw [processLine_of_endIf host (site n) l.reads, hf]
    rfl
  rw [run_feed_cons host site hline]
  rfl

mutual

/-- A block program in a region that does not count changes nothing. -/
theorem run_feed_of_suppressed : ∀ (p : BlockProgram) (n : Nat) {f : Feed σ},
    f.scope.conditions.isActive = false →
      (feed host site n p.lines).run f = (.ok (), f)
  | .done, _, _, _ => rfl
  | .line l rest, n, f, hf => by
      have hline : (feedLine host site n l.content).run f = (.ok (), f) :=
        run_feedLine_of_skip host site (c := f.scope.conditions)
          (processLine_of_suppressed host (site n) l.ordinary hf)
      rw [BlockProgram.lines, run_feed_cons host site hline]
      exact run_feed_of_suppressed rest (n + 1) hf
  | .block t l body branches rest, n, f, hf => by
      -- the block opens on a branch that does not count and of which none can be selected
      let c := f.scope.conditions.skipping (site n).line
      have hopen : (feedLine host site n l.content).run f = (.ok (), f.within c) := by
        refine run_feedLine_of_skip host site ?_
        rw [processLine_of_opening host (site n) t l.reads,
          Conditions.openBlock_of_suppressed hf]
        rfl
      have hc : c.isActive = false := Bool.and_false _
      have hbody := run_feed_of_suppressed body (n + 1) (f := f.within c) hc
      have hbranches := run_feed_of_spent branches (n + 1 + body.lines.length)
        (f := f.within c) rfl ⟨rfl, .inl rfl⟩
      rw [BlockProgram.lines, run_feed_cons host site hopen, run_feed_append host site hbody,
        run_feed_append host site hbranches]
      exact run_feed_of_suppressed rest _ hf

/-- The further branches of a block of which none can be selected only close it. -/
theorem run_feed_of_spent : ∀ (branches : Branches) (n : Nat) {f : Feed σ} {b : Block}
    {rest : List Block} {excluded : Bool},
    f.scope.conditions = ⟨b :: rest, excluded⟩ → b.Spent →
      (feed host site n branches.lines).run f = (.ok (), f.within ⟨rest, excluded⟩)
  | .endIf l, n, f, b, rest, excluded, hf, hb => run_feed_endIf host site l hf
  | .otherwise l body last, n, f, b, rest, excluded, hf, hb => by
      let b' : Block := { b with active := false, taken := true, elseSeen := true }
      let c : Conditions := ⟨b' :: rest, excluded⟩
      have helse : (feedLine host site n l.content).run f = (.ok (), f.within c) := by
        refine run_feedLine_of_skip host site ?_
        rw [processLine_of_otherwise host (site n) l.reads, hf, hb.otherwise]
      have hc : c.isActive = false := Bool.and_false _
      have hbody := run_feed_of_suppressed body (n + 1) (f := f.within c) hc
      rw [Branches.lines, run_feed_cons host site helse, run_feed_append host site hbody]
      exact run_feed_endIf host site last (f := f.within c) rfl
  | .elseIf expr l body more, n, f, b, rest, excluded, hf, hb => by
      let c : Conditions := ⟨{ b with active := false } :: rest, excluded⟩
      have helif : (feedLine host site n l.content).run f = (.ok (), f.within c) := by
        refine run_feedLine_of_skip host site ?_
        rw [processLine_of_elseIf host (site n) l.reads, hf, hb.elseIf]
        rfl
      have hc : c.isActive = false := Bool.and_false _
      have hbody := run_feed_of_suppressed body (n + 1) (f := f.within c) hc
      rw [Branches.lines, run_feed_cons host site helif, run_feed_append host site hbody]
      exact run_feed_of_spent more _ (f := f.within c) rfl hb.further

end

/-! ## Following a region that counts -/

theorem run_inside_of_ok {x : WorldM σ α} {w v : World σ} {a : α}
    (h : x.run { w with depth := w.depth + 1 } = (.ok a, v)) :
    x.inside.run w = (.ok a, { v with depth := v.depth - 1 }) := by
  have henter : (modify fun w => { w with depth := w.depth + 1 } : WorldM σ Unit).run w =
      (.ok (), { w with depth := w.depth + 1 }) := rfl
  unfold WorldM.inside
  rw [run_bind_of_ok henter, run_bind_of_ok h]
  rfl

theorem run_inside_of_error {x : WorldM σ α} {w v : World σ} {stop : Halt}
    (h : x.run { w with depth := w.depth + 1 } = (.error stop, v)) :
    x.inside.run w = (.error stop, v) := by
  have henter : (modify fun w => { w with depth := w.depth + 1 } : WorldM σ Unit).run w =
      (.ok (), { w with depth := w.depth + 1 }) := rfl
  unfold WorldM.inside
  rw [run_bind_of_ok henter, run_bind_of_error h]

/-- Feeding from `f` and running from `w` end alike, and if no line stops them then the blocks
`c` are open. -/
def EndAlike (x : FeedM σ Unit) (f : Feed σ) (y : WorldM σ Unit) (w : World σ)
    (c : Conditions) : Prop :=
  ∃ r f', x.run f = (r, f') ∧ y.run w = (r, f'.world) ∧
    (r = .ok () → f'.scope.conditions = c)

namespace EndAlike

variable {x x' : FeedM σ Unit} {y y' : WorldM σ Unit} {f f' : Feed σ} {w v : World σ}
  {c d : Conditions}

theorem seq (h : EndAlike x f y w c)
    (h' : ∀ f', f'.scope.conditions = c → EndAlike x' f' y' f'.world d) :
    EndAlike (do x; x') f (do y; y') w d := by
  obtain ⟨r, f₁, hx, hy, hc⟩ := h
  cases r with
  | error stop =>
      exact ⟨.error stop, f₁, run_bind_of_error hx, run_bind_of_error hy, fun h => by cases h⟩
  | ok u =>
      obtain ⟨r₂, f₂, hx₂, hy₂, hc₂⟩ := h' f₁ (hc rfl)
      exact ⟨r₂, f₂, (run_bind_of_ok hx).trans hx₂, (run_bind_of_ok hy).trans hy₂, hc₂⟩

theorem feeding (hx : x.run f = (.ok (), f')) (h : EndAlike x' f' y w c) :
    EndAlike (do x; x') f y w c := by
  obtain ⟨r, f₁, hx₁, hy, hc⟩ := h
  exact ⟨r, f₁, (run_bind_of_ok hx).trans hx₁, hy, hc⟩

theorem asking {z : WorldM σ Bool} {b : Bool} {k : Bool → WorldM σ Unit}
    (hx : x.run f = (.ok (), f')) (hz : z.run w = (.ok b, v))
    (h : EndAlike x' f' (k b) v c) : EndAlike (do x; x') f (z >>= k) w c := by
  obtain ⟨r, f₁, hx₁, hy, hc⟩ := h
  exact ⟨r, f₁, (run_bind_of_ok hx).trans hx₁, (run_bind_of_ok hz).trans hy, hc⟩

theorem stopping {z : WorldM σ Bool} {k : Bool → WorldM σ Unit} {stop : Halt}
    (hx : x.run f = (.error stop, f')) (hz : z.run w = (.error stop, f'.world)) :
    EndAlike (do x; x') f (z >>= k) w c :=
  ⟨.error stop, f', run_bind_of_error hx, run_bind_of_error hz, fun h => by cases h⟩

/-- The selected branch of a block: its lines are followed in step, and what is left of the
block only closes it. -/
theorem inside (h : EndAlike x f y { w with depth := w.depth + 1 } d)
    (h' : ∀ f', f'.scope.conditions = d → x'.run f' = (.ok (), f'.within c))
    (hdepth : d.depth = c.depth + 1) :
    EndAlike (do x; x') f (WorldM.inside y) w c := by
  obtain ⟨r, f₁, hx, hy, hc⟩ := h
  cases r with
  | error stop =>
      exact ⟨.error stop, f₁, run_bind_of_error hx, run_inside_of_error hy, fun h => by cases h⟩
  | ok u =>
      have hf₁ := hc rfl
      refine ⟨.ok (), f₁.within c, (run_bind_of_ok hx).trans (h' f₁ hf₁), ?_, fun _ => rfl⟩
      have hleave : f₁.world.depth - 1 = c.depth := by
        change f₁.scope.conditions.depth - 1 = c.depth
        rw [hf₁, hdepth, Nat.add_sub_cancel]
      rw [run_inside_of_ok hy, hleave]
      rfl

end EndAlike

theorem Conditions.depth_after (c : Conditions) (r : Except Fault Step) :
    (c.after r).depth = c.depth := by
  unfold Conditions.after
  split <;> rfl

theorem Halt.ne_exclude_of_verdict {n : Nat} {r : Except Fault Step}
    (h : Halt.verdict n r = .ok ()) : r ≠ .ok .exclude := by
  rintro rfl
  cases h

theorem endAlike_line (n : Nat) (l : OrdinaryLine) {f : Feed σ}
    (hf : f.scope.conditions.isActive = true) :
    EndAlike (feedLine host site n l.content) f (WorldM.line host site n l.content) f.world
      f.scope.conditions := by
  rcases hr : f.engine.processLine host (site n) l.content f.world.scope with ⟨r, s, e⟩
  let c := f.scope.conditions
  have hscope : f.scope = f.world.scope.within c := rfl
  have hfeed : f.engine.processLine host (site n) l.content f.scope =
      (r, s.within (c.after r), e) := by
    rw [hscope, processLine_within host (site n) l.ordinary hf (s := f.world.scope) rfl, hr]
    rfl
  refine ⟨_, _, run_feedLine host site hfeed, ?_, fun h => ?_⟩
  · unfold WorldM.line
    have hr' : f.world.engine.processLine host (site n) l.content f.world.scope = (r, s, e) := hr
    simp only [ExceptT.run, ExceptT.mk, hr']
    simp only [Feed.world, Scope.within, Conditions.depth_after]
    rfl
  · exact Conditions.after_of_ne (Halt.ne_exclude_of_verdict h)

def Feed.withEngine (f : Feed σ) (e : Engine σ) : Feed σ :=
  { f with engine := e }

section Asking

variable {n : Nat} {content : String} {f : Feed σ} {x : EngineM σ Bool}
  {next : Bool → Conditions} {e : Engine σ}

theorem run_feedLine_of_asks {b : Bool}
    (h : f.engine.processLine host (site n) content f.scope =
      f.scope.settle x f.engine (.asks next))
    (hx : x.run f.engine = (.ok b, e)) :
    (feedLine host site n content).run f = (.ok (), (f.withEngine e).within (next b)) := by
  have hline : f.engine.processLine host (site n) content f.scope =
      (.ok .skip, f.scope.within (next b), e) := by
    rw [h, Scope.settle, hx]
  rw [run_feedLine host site hline]
  simp [Halt.verdict, Step.handedOn, Feed.within, Feed.withEngine]

theorem run_feedLine_of_fault {fault : Fault}
    (h : f.engine.processLine host (site n) content f.scope =
      f.scope.settle x f.engine (.asks next))
    (hx : x.run f.engine = (.error fault, e)) :
    (feedLine host site n content).run f = (.error ⟨n, .failed fault⟩, f.withEngine e) := by
  have hline : f.engine.processLine host (site n) content f.scope =
      (.error fault, f.scope, e) := by
    rw [h, Scope.settle, hx]
  rw [run_feedLine host site hline]
  simp [Halt.verdict, Step.handedOn, Feed.withEngine]

theorem run_decide_of_ok {w : World σ} {b : Bool} (hx : x.run w.engine = (.ok b, e)) :
    (WorldM.decide n x).run w = (.ok b, { w with engine := e }) := by
  unfold WorldM.decide
  simp only [ExceptT.run, ExceptT.mk] at hx ⊢
  rw [hx]

theorem run_decide_of_error {w : World σ} {fault : Fault}
    (hx : x.run w.engine = (.error fault, e)) :
    (WorldM.decide n x).run w = (.error ⟨n, .failed fault⟩, { w with engine := e }) := by
  unfold WorldM.decide
  simp only [ExceptT.run, ExceptT.mk] at hx ⊢
  rw [hx]

end Asking

theorem Conditions.not_excluded {c : Conditions} (h : c.isActive = true) : c.excluded = false := by
  unfold Conditions.isActive at h
  cases hc : c.excluded with
  | false => rfl
  | true => rw [hc] at h; cases h

theorem Conditions.openBlock_of_active {c : Conditions} (h : c.isActive = true) (line : Nat) :
    c.openBlock line =
      .asks fun b => { c with blocks := ⟨b, b, true, false, line⟩ :: c.blocks } := by
  unfold Conditions.openBlock Conditions.push
  simp [h]

/-- A block of which no branch has been selected yet, in a region that counts. -/
structure Block.Undecided (b : Block) : Prop where
  noElse : b.elseSeen = false
  outer : b.outerActive = true
  untaken : b.taken = false

namespace Block.Undecided

variable {b : Block} {rest : List Block}

theorem elseIf (h : b.Undecided) :
    Conditions.elseIf ⟨b :: rest, false⟩ =
      .ok (.asks fun v => ⟨{ b with active := v, taken := v } :: rest, false⟩) := by
  simp [Conditions.elseIf, h.noElse, h.outer, h.untaken]

theorem otherwise (h : b.Undecided) :
    Conditions.otherwise ⟨b :: rest, false⟩ =
      .ok ⟨{ b with active := true, taken := true, elseSeen := true } :: rest, false⟩ := by
  simp [Conditions.otherwise, h.noElse, h.outer, h.untaken]

end Block.Undecided

mutual

theorem endAlike_program : ∀ (p : BlockProgram) (n : Nat) {f : Feed σ},
    f.scope.conditions.isActive = true →
      EndAlike (feed host site n p.lines) f (p.run host site n) f.world f.scope.conditions
  | .done, n, f, hf => ⟨.ok (), f, rfl, rfl, fun _ => rfl⟩
  | .line l rest, n, f, hf => by
      refine (endAlike_line host site n l hf).seq fun f' hf' => ?_
      rw [← hf'] at hf ⊢
      exact endAlike_program rest (n + 1) hf
  | .block t l body branches rest, n, f, hf => by
      let c := f.scope.conditions
      let next : Bool → Conditions := fun b =>
        { c with blocks := ⟨b, b, true, false, (site n).line⟩ :: c.blocks }
      have hopen : f.engine.processLine host (site n) l.content f.scope =
          f.scope.settle (t.value host (site n)) f.engine (.asks next) := by
        rw [processLine_of_opening host (site n) t l.reads, Conditions.openBlock_of_active hf]
      have hlines : feed host site n (BlockProgram.block t l body branches rest).lines = (do
          feedLine host site n l.content
          (do feed host site (n + 1) body.lines
              feed host site (n + 1 + body.lines.length) branches.lines)
          feed host site (n + 1 + body.lines.length + branches.lines.length) rest.lines) := by
        simp only [BlockProgram.lines, feed, feed_append, bind_assoc]
      rw [hlines]
      rcases hx : (t.value host (site n)).run f.engine with ⟨r, e⟩
      cases r with
      | error fault =>
          exact .stopping (run_feedLine_of_fault host site hopen hx) (run_decide_of_error hx)
      | ok b =>
          refine .asking (run_feedLine_of_asks host site hopen hx) (run_decide_of_ok hx) ?_
          -- what follows the block starts from the blocks that the block started from
          have hrest (m : Nat) (f' : Feed σ) (hf' : f'.scope.conditions = c) :
              EndAlike (feed host site m rest.lines) f' (rest.run host site m) f'.world c := by
            rw [← hf']
            exact endAlike_program rest m (by rw [hf']; exact hf)
          cases b with
          | true =>
              -- the first branch is followed, and the further ones are spent
              refine .seq (.inside (d := next true) ?_ ?_ rfl) (hrest _)
              · refine endAlike_program body (n + 1) (f := (f.withEngine e).within (next true)) ?_
                change (!c.excluded && true) = true
                rw [Conditions.not_excluded hf]
                rfl
              · intro f' hf'
                exact run_feed_of_spent host site branches _ hf' ⟨rfl, .inr rfl⟩
          | false =>
              -- the first branch is passed over, and the further ones are tried in turn
              have hbody := run_feed_of_suppressed host site body (n + 1)
                (f := (f.withEngine e).within (next false)) (Bool.and_false _)
              refine .seq (.feeding hbody ?_) (hrest _)
              have hc : c = ⟨c.blocks, false⟩ := by
                rw [← Conditions.not_excluded hf]
              have hnext : next false =
                  ⟨⟨false, false, true, false, (site n).line⟩ :: c.blocks, false⟩ :=
                congrArg (Conditions.mk _) (Conditions.not_excluded hf)
              rw [hc]
              exact endAlike_branches branches _ hnext ⟨rfl, rfl, rfl⟩

theorem endAlike_branches : ∀ (branches : Branches) (n : Nat) {f : Feed σ} {b : Block}
    {rest : List Block},
    f.scope.conditions = ⟨b :: rest, false⟩ → b.Undecided →
      EndAlike (feed host site n branches.lines) f (branches.run host site n)
        { f.world with depth := rest.length } ⟨rest, false⟩
  | .endIf l, n, f, b, rest, hf, hb =>
      ⟨.ok (), f.within ⟨rest, false⟩, run_feed_endIf host site l hf, rfl, fun _ => rfl⟩
  | .otherwise l body last, n, f, b, rest, hf, hb => by
      let c : Conditions :=
        ⟨{ b with active := true, taken := true, elseSeen := true } :: rest, false⟩
      have helse : (feedLine host site n l.content).run f = (.ok (), f.within c) := by
        refine run_feedLine_of_skip host site ?_
        rw [processLine_of_otherwise host (site n) l.reads, hf, hb.otherwise]
      rw [Branches.lines, feed, feed_append]
      refine .feeding helse (.inside (d := c) ?_ ?_ rfl)
      · exact endAlike_program body (n + 1) (f := f.within c) rfl
      · intro f' hf'
        exact run_feed_endIf host site last hf'
  | .elseIf expr l body more, n, f, b, rest, hf, hb => by
      let next : Bool → Conditions := fun v => ⟨{ b with active := v, taken := v } :: rest, false⟩
      have helif : f.engine.processLine host (site n) l.content f.scope =
          f.scope.settle (EngineM.condition host (site n) expr) f.engine (.asks next) := by
        rw [processLine_of_elseIf host (site n) l.reads, hf, hb.elseIf]
      rw [Branches.lines, feed, feed_append]
      rcases hx : (EngineM.condition host (site n) expr).run f.engine with ⟨r, e⟩
      cases r with
      | error fault =>
          -- the block is still open where its condition fails
          have hworld : (f.withEngine e).world =
              { f.world with engine := e, depth := rest.length + 1 } := by
            simp [Feed.world, Feed.withEngine, Conditions.depth, hf]
          refine .stopping (run_feedLine_of_fault host site helif hx) ?_
          rw [hworld]
          exact run_inside_of_error (run_decide_of_error hx)
      | ok v =>
          refine .asking (run_feedLine_of_asks host site helif hx)
            (run_inside_of_ok (run_decide_of_ok hx)) ?_
          cases v with
          | true =>
              refine .inside (d := next true) ?_ ?_ rfl
              · exact endAlike_program body (n + 1)
                  (f := (f.withEngine e).within (next true)) rfl
              · intro f' hf'
                exact run_feed_of_spent host site more _ hf' ⟨hb.noElse, .inr rfl⟩
          | false =>
              have hbody := run_feed_of_suppressed host site body (n + 1)
                (f := (f.withEngine e).within (next false)) (Bool.and_false _)
              refine .feeding hbody ?_
              exact endAlike_branches more _ (f := (f.withEngine e).within (next false)) rfl
                ⟨hb.noElse, hb.outer, rfl⟩

end

/-! ## The two readings agree -/

theorem Conditions.isActive_of_state {c : Conditions} (h : c.state = .active) :
    c.isActive = true := by
  unfold Conditions.state at h
  split at h
  · cases h
  · split at h
    · assumption
    · cases h

/-- From any state in a region that counts, feeding the lines of a block program stops at the
same line for the same reason as running its tree, or at its end like it, with the same texts
and targets handed on, the same engine, the same switches and as many blocks open; if it is not
stopped, the very blocks are open that were open before. -/
theorem feed_lines_eq_run (p : BlockProgram) (n : Nat) (f : Feed σ)
    (hf : f.scope.conditions.state = .active) :
    Prod.map id Feed.world ((feed host site n p.lines).run f) =
        (p.run host site n).run f.world ∧
      ∀ f', (feed host site n p.lines).run f = (.ok (), f') →
        f'.scope.conditions = f.scope.conditions := by
  obtain ⟨r, f₁, hfeed, hrun, hc⟩ :=
    endAlike_program host site p n (Conditions.isActive_of_state hf)
  refine ⟨?_, fun f' hf' => ?_⟩
  · rw [hfeed, hrun]
    rfl
  · rw [hfeed] at hf'
    cases hf'
    exact hc rfl

/-- A block in a branch of a block, with lines before, between and after them. -/
def nestedBlocks : BlockProgram :=
  .line ⟨"//#define a = 1", rfl⟩ <|
  .block (.isDefined "b") ⟨"//#ifdef b", rfl⟩ (.line ⟨"first", rfl⟩ .done)
    (.elseIf "a == 1" ⟨"//#elif a == 1", rfl⟩
      (.block (.holds "a > 1") ⟨"  //#if a > 1", rfl⟩ (.line ⟨"//#frob", rfl⟩ .done)
        (.otherwise ⟨"  //#else", rfl⟩ (.line ⟨"  //$second", rfl⟩ .done)
          ⟨"  //#endif", rfl⟩)
        (.line ⟨"//#excludeif a == 2", rfl⟩ .done))
      (.otherwise ⟨"//#else", rfl⟩ (.line ⟨"third", rfl⟩ .done) ⟨"//#endif", rfl⟩)) <|
  .line ⟨"last /*$a$*/", rfl⟩ .done

theorem feed_nestedBlocks_eq_run :
    let f : Feed Unit := ⟨{}, { env := .forFile [] [] [] ⟨0, 0⟩ false, host := () }, []⟩
    let site : Nat → Site := fun n => ⟨⟨"Main.java"⟩, n⟩
    f.scope.conditions.state = .active ∧
      Prod.map id Feed.world ((feed (.declining Unit) site 0 nestedBlocks.lines).run f) =
          (nestedBlocks.run (.declining Unit) site 0).run f.world ∧
        ∀ f', (feed (.declining Unit) site 0 nestedBlocks.lines).run f = (.ok (), f') →
          f'.scope.conditions = f.scope.conditions :=
  ⟨rfl, feed_lines_eq_run (.declining Unit) _ nestedBlocks 0 _ rfl⟩

end Preprocessor
