/-
Computations that keep their state when they fail.

Lines, engines and whole runs share one shape: a state that outlives a failure.  Sequencing two
such computations is decided by the outcome of the first, so later proofs cut a sequence where
they know that outcome and never open the monad.
-/
import Mathlib.Tactic.Common

namespace Preprocessor

variable {ε σ κ α β : Type}

/-! ## Sequencing by the outcome of the first part -/

theorem run_bind_of_ok {x : ExceptT ε (StateM σ) α} {f : α → ExceptT ε (StateM σ) β}
    {s s' : σ} {a : α} (h : x.run s = (.ok a, s')) : (x >>= f).run s = (f a).run s' := by
  change ExceptT.bindCont f (x.run s).1 (x.run s).2 = _
  rw [h]
  rfl

theorem run_bind_of_error {x : ExceptT ε (StateM σ) α} {f : α → ExceptT ε (StateM σ) β}
    {s s' : σ} {e : ε} (h : x.run s = (.error e, s')) :
    (x >>= f).run s = (.error e, s') := by
  change ExceptT.bindCont f (x.run s).1 (x.run s).2 = _
  rw [h]
  rfl

theorem exists_of_run_bind_eq_ok {x : ExceptT ε (StateM σ) α} {f : α → ExceptT ε (StateM σ) β}
    {s s' : σ} {b : β} (h : (x >>= f).run s = (.ok b, s')) :
    ∃ a s₁, x.run s = (.ok a, s₁) ∧ (f a).run s₁ = (.ok b, s') := by
  rcases hx : x.run s with ⟨err | a, s₁⟩
  · rw [run_bind_of_error hx] at h
    cases h
  · rw [run_bind_of_ok hx] at h
    exact ⟨a, s₁, rfl, h⟩

theorem run_bind_congr {x y : ExceptT ε (StateM σ) α} {s : σ} (h : y.run s = x.run s)
    (f : α → ExceptT ε (StateM σ) β) : (y >>= f).run s = (x >>= f).run s := by
  change ExceptT.bindCont f (y.run s).1 (y.run s).2 = _
  rw [h]
  rfl

theorem run_tryCatch_of_ok {x : ExceptT ε (StateM σ) α} {f : ε → ExceptT ε (StateM σ) α}
    {s s' : σ} {a : α} (h : x.run s = (.ok a, s')) : (tryCatch x f).run s = (.ok a, s') := by
  have hfirst : StateT.run x.run s = pure (.ok a, s') := h
  simp only [tryCatch, tryCatchThe, MonadExceptOf.tryCatch, ExceptT.tryCatch, ExceptT.run_mk]
  refine (StateT.run_bind x.run _ s).trans ?_
  rw [hfirst]
  rfl

theorem run_tryCatch_of_error {x : ExceptT ε (StateM σ) α} {f : ε → ExceptT ε (StateM σ) α}
    {s s' : σ} {err : ε} (h : x.run s = (.error err, s')) :
    (tryCatch x f).run s = (f err).run s' := by
  have hfirst : StateT.run x.run s = pure (.error err, s') := h
  simp only [tryCatch, tryCatchThe, MonadExceptOf.tryCatch, ExceptT.tryCatch, ExceptT.run_mk]
  refine (StateT.run_bind x.run _ s).trans ?_
  rw [hfirst]
  rfl

theorem exists_of_map_eq_ok {f : α → β} {x : Except ε α} {b : β} (h : x.map f = .ok b) :
    ∃ a, x = .ok a ∧ f a = b := by
  cases x with
  | error e => cases h
  | ok a => exact ⟨a, rfl, by cases h; rfl⟩

theorem eq_ok_of_toOption {r : Except ε α} {a : α} (h : r.toOption = some a) : r = .ok a := by
  cases r with
  | error err => cases h
  | ok b =>
      cases h
      rfl

theorem exists_error_of_toOption {r : Except ε α} (h : r.toOption = none) :
    ∃ err, r = .error err := by
  cases r with
  | error err => exact ⟨err, rfl⟩
  | ok a => cases h

theorem exists_of_bind_eq_ok {f : α → Except ε β} {x : Except ε α} {b : β}
    (h : x >>= f = .ok b) : ∃ a, x = .ok a ∧ f a = .ok b := by
  cases x with
  | error e => cases h
  | ok a => exact ⟨a, rfl, h⟩

theorem mapM_of_forall_eq_ok {f : α → Except ε β} {g : α → β} {xs : List α}
    (h : ∀ x ∈ xs, f x = .ok (g x)) : xs.mapM f = .ok (xs.map g) := by
  induction xs with
  | nil => rfl
  | cons x xs ih =>
      obtain ⟨hx, hxs⟩ := List.forall_mem_cons.mp h
      rw [List.mapM_cons, hx, ih hxs]
      rfl

theorem exists_of_mapM_eq_ok [Inhabited β] {f : α → Except ε β} {xs : List α} {ys : List β}
    (h : xs.mapM f = .ok ys) : ∃ g, (∀ x ∈ xs, f x = .ok (g x)) ∧ ys = xs.map g := by
  refine ⟨fun x => (f x).toOption.getD default, ?_⟩
  induction xs generalizing ys with
  | nil =>
      cases h
      exact ⟨List.forall_mem_nil _, rfl⟩
  | cons x xs ih =>
      rw [List.mapM_cons] at h
      obtain ⟨y, hy, h⟩ := exists_of_bind_eq_ok h
      obtain ⟨ys, hys, h⟩ := exists_of_bind_eq_ok h
      cases h
      obtain ⟨hxs, rfl⟩ := ih hys
      have hvalue : (f x).toOption.getD default = y := by
        rw [hy]
        rfl
      refine ⟨List.forall_mem_cons.mpr ⟨hy.trans (congrArg _ hvalue.symm), hxs⟩, ?_⟩
      rw [List.map_cons, hvalue]

/-! ## What a computation keeps -/

/-- Whatever comes of the computation, it keeps what `kept` says of the state. -/
def Quiet (kept : σ → κ) (x : ExceptT ε (StateM σ) α) : Prop :=
  ∀ s r s', x.run s = (r, s') → kept s' = kept s

namespace Quiet

variable {kept : σ → κ} {x : ExceptT ε (StateM σ) α} {f : α → ExceptT ε (StateM σ) β}

theorem pure (a : α) : Quiet kept (pure a : ExceptT ε (StateM σ) α) := by
  intro s r s' hrun
  cases hrun
  rfl

theorem throw (err : ε) : Quiet kept (throw err : ExceptT ε (StateM σ) α) := by
  intro s r s' hrun
  cases hrun
  rfl

theorem get : Quiet kept (MonadState.get : ExceptT ε (StateM σ) σ) := by
  intro s r s' hrun
  cases hrun
  rfl

theorem modify {f : σ → σ} (h : ∀ s, kept (f s) = kept s) :
    Quiet kept (modify f : ExceptT ε (StateM σ) PUnit) := by
  intro s r s' hrun
  cases hrun
  exact h s

theorem bind (hx : Quiet kept x) (hf : ∀ a, Quiet kept (f a)) : Quiet kept (x >>= f) := by
  intro s r s' hrun
  rcases hfirst : x.run s with ⟨r₁, s₁⟩
  cases r₁ with
  | error err =>
      rw [run_bind_of_error hfirst] at hrun
      cases hrun
      exact hx s _ _ hfirst
  | ok a =>
      rw [run_bind_of_ok hfirst] at hrun
      exact (hf a s₁ r s' hrun).trans (hx s _ s₁ hfirst)

end Quiet

end Preprocessor
