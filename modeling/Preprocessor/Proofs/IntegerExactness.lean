/-
Integer arithmetic is exact or fails.

An expression of integers, negation and the five operations of arithmetic has at most one value over
the unbounded integers.  Evaluation finds this value or an arithmetic fault, and the fault shows in
a part of the expression: its operands have values, but a divisor is zero, a result does not fit
into 64 bits, or the remainder belongs to a quotient that does not.
-/
import Mathlib.Algebra.Group.Int.Defs
import Preprocessor.Expr.Eval
import Preprocessor.Proofs.Computation

namespace Preprocessor

variable {σ : Type}

/-! ## Integers of 64 bits -/

/-- An integer fits into 64 bits. -/
def Fits (n : Int) : Prop :=
  -2 ^ 63 ≤ n ∧ n < 2 ^ 63

theorem fits_toInt (n : Int64) : Fits n.toInt :=
  ⟨n.le_toInt, n.toInt_lt⟩

theorem Decimal.int64?_of_fits {n : Int} (h : Fits n) :
    ∃ k, int64? n = some k ∧ k.toInt = n := by
  refine ⟨Int64.ofInt n, ?_, Int64.toInt_ofInt_of_le h.1 h.2⟩
  have hrange : (-(twoTo 63 : Int) ≤ n && n < (twoTo 63 : Int)) = true := by
    rw [Bool.and_eq_true, decide_eq_true_eq, decide_eq_true_eq]
    exact h
  rw [int64?, if_pos hrange]

theorem Decimal.int64?_of_not_fits {n : Int} (h : ¬ Fits n) : int64? n = none := by
  have hrange : ¬ (-(twoTo 63 : Int) ≤ n && n < (twoTo 63 : Int)) = true := by
    rw [Bool.and_eq_true, decide_eq_true_eq, decide_eq_true_eq]
    exact h
  rw [int64?, if_neg hrange]

/-! ## Operations on unbounded integers -/

/-- `Truncated a b q m`: division of `a` by `b` has the quotient `q`, cut off toward zero, and the
remainder `m`, which does not have the sign opposite to the dividend. -/
structure Truncated (a b q m : Int) : Prop where
  whole : a = b * q + m
  small : m.natAbs < b.natAbs
  sign : (0 ≤ a → 0 ≤ m) ∧ (a ≤ 0 → m ≤ 0)

theorem Truncated.divisor_ne {a b q m : Int} (h : Truncated a b q m) : b ≠ 0 := by
  rintro rfl
  exact absurd h.small (Nat.not_lt_zero _)

theorem truncated_tdiv (a : Int) {b : Int} (hb : b ≠ 0) :
    Truncated a b (a.tdiv b) (a.tmod b) where
  whole := (Int.mul_tdiv_add_tmod a b).symm
  small := by
    rw [Int.natAbs_tmod]
    exact Nat.mod_lt _ (Int.natAbs_pos.mpr hb)
  sign := by
    refine ⟨fun ha => Int.tmod_nonneg b ha, fun ha => ?_⟩
    have hneg := Int.tmod_nonneg b (Int.neg_nonneg_of_nonpos ha)
    rw [Int.neg_tmod] at hneg
    omega

/-- A division has one quotient and one remainder. -/
theorem Truncated.eq_tdiv {a b q m : Int} (h : Truncated a b q m) :
    q = a.tdiv b ∧ m = a.tmod b := by
  have hwhole : m + b * q = a := by
    rw [Int.add_comm]
    exact h.whole.symm
  have hsmall := h.small
  rcases Int.le_total 0 a with ha | ha
  · have hm := h.sign.1 ha
    obtain ⟨hq, hr⟩ := (Int.tdiv_tmod_unique ha h.divisor_ne).mpr ⟨hwhole, hm, by omega⟩
    exact ⟨hq.symm, hr.symm⟩
  · have hm := h.sign.2 ha
    obtain ⟨hq, hr⟩ := (Int.tdiv_tmod_unique' ha h.divisor_ne).mpr ⟨hwhole, by omega, hm⟩
    exact ⟨hq.symm, hr.symm⟩

def BinaryOp.isArithmetic : BinaryOp → Bool
  | add | sub | mul | div | rem => true
  | _ => false

/-- `op.Gives a b n`: over the unbounded integers the operation has the result `n`. -/
inductive BinaryOp.Gives : BinaryOp → Int → Int → Int → Prop
  | add (a b : Int) : Gives .add a b (a + b)
  | sub (a b : Int) : Gives .sub a b (a - b)
  | mul (a b : Int) : Gives .mul a b (a * b)
  | div {a b q m : Int} : Truncated a b q m → Gives .div a b q
  | rem {a b q m : Int} : Truncated a b q m → Gives .rem a b m

/-- `op.Faults a b`: the operation cannot be done on these operands in 64 bits. -/
inductive BinaryOp.Faults : BinaryOp → Int → Int → Prop
  | zeroDivisor {op : BinaryOp} {a : Int} : op = .div ∨ op = .rem → Faults op a 0
  | outOfRange {op : BinaryOp} {a b n : Int} : op.Gives a b n → ¬ Fits n → Faults op a b
  | minimum : Faults .rem (-2 ^ 63) (-1)

theorem BinaryOp.Gives.unique {op : BinaryOp} {a b n n' : Int} (h : op.Gives a b n)
    (h' : op.Gives a b n') : n = n' := by
  cases h with
  | add => cases h'; rfl
  | sub => cases h'; rfl
  | mul => cases h'; rfl
  | div hq =>
      cases h' with
      | div hq' => rw [hq.eq_tdiv.1, hq'.eq_tdiv.1]
  | rem hm =>
      cases h' with
      | rem hm' => rw [hm.eq_tdiv.2, hm'.eq_tdiv.2]

/-- A result that fits is no fault, but for the remainder of the least integer by minus one. -/
theorem BinaryOp.Gives.not_faults {op : BinaryOp} {a b n : Int} (h : op.Gives a b n)
    (hfits : Fits n) (hmin : op = .rem → ¬ (a = -2 ^ 63 ∧ b = -1)) : ¬ op.Faults a b := by
  intro hfaults
  cases hfaults with
  | zeroDivisor hop =>
      cases h with
      | div hq => exact hq.divisor_ne rfl
      | rem hm => exact hm.divisor_ne rfl
      | _ => simp at hop
  | outOfRange hgives hout =>
      rw [h.unique hgives] at hfits
      exact hout hfits
  | minimum => exact hmin rfl ⟨rfl, rfl⟩

/-- The one quotient of 64-bit integers that does not fit. -/
theorem eq_minimum_of_tdiv {a b : Int} (ha : Fits a) (hb : b ≠ 0) (h : ¬ Fits (a.tdiv b)) :
    a = -2 ^ 63 ∧ b = -1 := by
  obtain ⟨hwhole, hsmall, -, hsign⟩ := truncated_tdiv a hb
  have hle := Int.natAbs_tdiv_le_natAbs a b
  unfold Fits at ha h
  generalize a.tdiv b = q, a.tmod b = m at *
  -- no quotient is larger than its dividend, so this one is as large as the least integer
  have hq : q = 2 ^ 63 := by omega
  have hmin : a = -2 ^ 63 := by omega
  subst hq hmin
  have hm := hsign (by decide)
  exact ⟨rfl, by omega⟩

/-! ## The operators on integers -/

theorem Value.checked_cases (op : BinaryOp) (n : Int) :
    (∃ k : Int64, checked op n = .ok (.int k) ∧ k.toInt = n) ∨
      (checked op n = .error (.arithmetic (.overflow op)) ∧ ¬ Fits n) := by
  unfold checked
  by_cases h : Fits n
  · obtain ⟨k, hk, hn⟩ := Decimal.int64?_of_fits h
    rw [hk]
    exact .inl ⟨k, rfl, hn⟩
  · rw [Decimal.int64?_of_not_fits h]
    exact .inr ⟨rfl, h⟩

/-- What comes of an operation of arithmetic: the exact result, or a fault for a reason. -/
def BinaryOp.Settles (op : BinaryOp) (a b : Int64) (r : Except EvalError Value) : Prop :=
  (∃ n : Int64, r = .ok (.int n) ∧ op.Gives a.toInt b.toInt n.toInt ∧
      ¬ op.Faults a.toInt b.toInt) ∨
    ∃ fault, r = .error (.arithmetic fault) ∧ op.Faults a.toInt b.toInt

theorem BinaryOp.settles_checked {op : BinaryOp} {a b : Int64} {n : Int}
    (h : op.Gives a.toInt b.toInt n)
    (hmin : op = .rem → ¬ (a.toInt = -2 ^ 63 ∧ b.toInt = -1)) :
    op.Settles a b (Value.checked op n) := by
  rcases Value.checked_cases op n with ⟨k, hk, rfl⟩ | ⟨hk, hout⟩
  · exact .inl ⟨k, hk, h, h.not_faults (fits_toInt k) hmin⟩
  · exact .inr ⟨_, hk, .outOfRange h hout⟩

theorem toInt_eq_zero_iff {b : Int64} : (b == 0) = true ↔ b.toInt = 0 := by
  rw [beq_iff_eq, ← Int64.toInt_inj, Int64.toInt_zero]

theorem BinaryOp.faults_of_zero {op : BinaryOp} {b : Int64} (hop : op = .div ∨ op = .rem)
    (hb : (b == 0) = true) (a : Int) : op.Faults a b.toInt := by
  rw [toInt_eq_zero_iff.mp hb]
  exact .zeroDivisor hop

theorem BinaryOp.settles_quotient (a b : Int64) :
    BinaryOp.div.Settles a b (Value.quotient a b) := by
  unfold Value.quotient
  by_cases hb : (b == 0) = true
  · rw [if_pos hb]
    exact .inr ⟨_, rfl, faults_of_zero (.inl rfl) hb _⟩
  · rw [if_neg hb]
    have hne : b.toInt ≠ 0 := fun h => hb (toInt_eq_zero_iff.mpr h)
    exact settles_checked (.div (truncated_tdiv _ hne)) (by simp)

theorem BinaryOp.settles_remainder (a b : Int64) :
    BinaryOp.rem.Settles a b (Value.remainder a b) := by
  unfold Value.remainder
  by_cases hb : (b == 0) = true
  · rw [if_pos hb]
    exact .inr ⟨_, rfl, faults_of_zero (.inr rfl) hb _⟩
  · rw [if_neg hb]
    have hne : b.toInt ≠ 0 := fun h => hb (toInt_eq_zero_iff.mpr h)
    by_cases hfits : Fits (a.toInt.tdiv b.toInt)
    · obtain ⟨k, hk, -⟩ := Decimal.int64?_of_fits hfits
      rw [hk]
      refine settles_checked (.rem (truncated_tdiv _ hne)) fun _ hmin => ?_
      rw [hmin.1, hmin.2] at hfits
      exact absurd hfits.2 (by decide)
    · obtain ⟨ha, hb⟩ := eq_minimum_of_tdiv (fits_toInt a) hne hfits
      rw [Decimal.int64?_of_not_fits hfits]
      refine .inr ⟨_, rfl, ?_⟩
      rw [ha, hb]
      exact .minimum

theorem BinaryOp.settles_apply {op : BinaryOp} (hop : op.isArithmetic = true) (a b : Int64) :
    op.Settles a b (op.apply (.int a) (.int b)) := by
  cases op with
  | add => exact settles_checked (.add _ _) (by simp)
  | sub => exact settles_checked (.sub _ _) (by simp)
  | mul => exact settles_checked (.mul _ _) (by simp)
  | div => exact settles_quotient a b
  | rem => exact settles_remainder a b
  | _ => cases hop

theorem BinaryOp.decidedBy_of_isArithmetic {op : BinaryOp} (h : op.isArithmetic = true) :
    op.decidedBy = none := by
  cases op with
  | add | sub | mul | div | rem => rfl
  | _ => cases h

theorem UnaryOp.apply_neg_cases (a : Int64) :
    (∃ n : Int64, UnaryOp.neg.apply (.int a) = .ok (.int n) ∧ n.toInt = -a.toInt) ∨
      (∃ fault, UnaryOp.neg.apply (.int a) = .error (.arithmetic fault) ∧
        ¬ Fits (-a.toInt)) := by
  simp only [UnaryOp.apply]
  by_cases h : Fits (-a.toInt)
  · obtain ⟨k, hk, hn⟩ := Decimal.int64?_of_fits h
    rw [hk]
    exact .inl ⟨k, rfl, hn⟩
  · rw [Decimal.int64?_of_not_fits h]
    exact .inr ⟨_, rfl, h⟩

/-! ## Expressions -/

namespace Expr

mutual

def parts : Expr → List Expr
  | literal v => [literal v]
  | .name s => [.name s]
  | unary op operand => unary op operand :: operand.parts
  | binary op left right => binary op left right :: (left.parts ++ right.parts)
  | call s args => call s args :: partsOf args
  | set items => set items :: partsOf items

def partsOf : List Expr → List Expr
  | [] => []
  | e :: es => e.parts ++ partsOf es

end

theorem self_mem_parts (e : Expr) : e ∈ e.parts := by
  cases e <;> exact List.mem_cons_self

/-- A tree of integers: of literals, of names that are bound to integers, of negations and of
operations of arithmetic. -/
inductive IsInteger (env : Environment) (site : Site) : Expr → Prop
  | literal (n : Int64) : IsInteger env site (.literal (.int n))
  | name {s : String} {n : Int64} :
      env.lookup s site = some (.int n) → IsInteger env site (.name s)
  | neg {operand : Expr} :
      IsInteger env site operand → IsInteger env site (.unary .neg operand)
  | binary {op : BinaryOp} {left right : Expr} :
      op.isArithmetic = true → IsInteger env site left → IsInteger env site right →
      IsInteger env site (.binary op left right)

/-- `Denotes env site e n`: over the unbounded integers an expression has the value `n`. -/
inductive Denotes (env : Environment) (site : Site) : Expr → Int → Prop
  | literal (n : Int64) : Denotes env site (.literal (.int n)) n.toInt
  | name {s : String} {n : Int64} :
      env.lookup s site = some (.int n) → Denotes env site (.name s) n.toInt
  | neg {operand : Expr} {a : Int} :
      Denotes env site operand a → Denotes env site (.unary .neg operand) (-a)
  | binary {op : BinaryOp} {left right : Expr} {a b n : Int} :
      Denotes env site left a → Denotes env site right b → op.Gives a b n →
      Denotes env site (.binary op left right) n

/-- `Breaks value e`: the operands of an expression have values, but the operation at its top cannot
be done on them in 64 bits. -/
inductive Breaks (value : Expr → Except EvalError Value) : Expr → Prop
  | neg {operand : Expr} {a : Int64} :
      value operand = .ok (.int a) → ¬ Fits (-a.toInt) → Breaks value (.unary .neg operand)
  | binary {op : BinaryOp} {left right : Expr} {a b : Int64} :
      value left = .ok (.int a) → value right = .ok (.int b) → op.Faults a.toInt b.toInt →
      Breaks value (.binary op left right)

/-! ### Evaluation -/

variable {host : Host σ} {env : Environment} {site : Site}

/-- What comes of an expression. -/
def outcome (host : Host σ) (env : Environment) (site : Site) (s : σ) (e : Expr) :
    Except EvalError Value :=
  ((e.eval host env site).run s).1

theorem run_eval_unary {op : UnaryOp} {operand : Expr} {v : Value} {s s' : σ}
    (h : (operand.eval host env site).run s = (.ok v, s')) :
    ((unary op operand).eval host env site).run s = (op.apply v, s') := by
  rw [eval, run_bind_of_ok h]
  rfl

theorem run_eval_unary_of_error {op : UnaryOp} {operand : Expr} {err : EvalError} {s s' : σ}
    (h : (operand.eval host env site).run s = (.error err, s')) :
    ((unary op operand).eval host env site).run s = (.error err, s') := by
  rw [eval, run_bind_of_error h]

theorem run_eval_binary {op : BinaryOp} {left right : Expr} {l r : Value} {s s₁ s' : σ}
    (hop : op.decidedBy = none) (hl : (left.eval host env site).run s = (.ok l, s₁))
    (hr : (right.eval host env site).run s₁ = (.ok r, s')) :
    ((binary op left right).eval host env site).run s = (op.apply l r, s') := by
  rw [eval, run_bind_of_ok hl, hop]
  dsimp only
  rw [run_bind_of_ok hr]
  rfl

theorem run_eval_binary_of_left {op : BinaryOp} {left right : Expr} {err : EvalError} {s s' : σ}
    (hl : (left.eval host env site).run s = (.error err, s')) :
    ((binary op left right).eval host env site).run s = (.error err, s') := by
  rw [eval, run_bind_of_error hl]

theorem run_eval_binary_of_right {op : BinaryOp} {left right : Expr} {l : Value}
    {err : EvalError} {s s₁ s' : σ} (hop : op.decidedBy = none)
    (hl : (left.eval host env site).run s = (.ok l, s₁))
    (hr : (right.eval host env site).run s₁ = (.error err, s')) :
    ((binary op left right).eval host env site).run s = (.error err, s') := by
  rw [eval, run_bind_of_ok hl, hop]
  dsimp only
  rw [run_bind_of_error hr]

/-- What comes of a tree of integers: its one value, and no part breaks; or a fault, and some part
does. -/
def Settles (host : Host σ) (env : Environment) (site : Site) (s : σ) (e : Expr) : Prop :=
  (∃ n : Int64, (e.eval host env site).run s = (.ok (.int n), s) ∧
      (∀ m, Denotes env site e m ↔ m = n.toInt) ∧
      ∀ part ∈ e.parts, ¬ Breaks (outcome host env site s) part) ∨
    ∃ fault, (e.eval host env site).run s = (.error (.arithmetic fault), s) ∧
      ∃ part ∈ e.parts, Breaks (outcome host env site s) part

theorem Settles.neg {operand : Expr} {s : σ} (h : Settles host env site s operand) :
    Settles host env site s (.unary .neg operand) := by
  rcases h with ⟨a, hrun, hvalue, hsound⟩ | ⟨fault, hrun, part, hpart, hbreaks⟩
  · have houtcome : outcome host env site s operand = .ok (.int a) := congrArg Prod.fst hrun
    rcases UnaryOp.apply_neg_cases a with ⟨n, hn, hexact⟩ | ⟨fault, hfault, hout⟩
    · refine .inl ⟨n, ?_, fun m => ⟨?_, ?_⟩, ?_⟩
      · rw [run_eval_unary hrun, hn]
      · intro hm
        cases hm with
        | neg ha => rw [hexact, (hvalue _).mp ha]
      · rintro rfl
        rw [hexact]
        exact .neg ((hvalue _).mpr rfl)
      · refine List.forall_mem_cons.mpr ⟨fun hbreaks => ?_, hsound⟩
        cases hbreaks with
        | neg ha hout =>
            cases houtcome.symm.trans ha
            rw [← hexact] at hout
            exact hout (fits_toInt n)
    · refine .inr ⟨fault, ?_, _, self_mem_parts _, .neg houtcome hout⟩
      rw [run_eval_unary hrun, hfault]
  · exact .inr ⟨fault, run_eval_unary_of_error hrun, part, List.mem_cons_of_mem _ hpart, hbreaks⟩

theorem Settles.binary {op : BinaryOp} {left right : Expr} {s : σ}
    (hop : op.isArithmetic = true) (hl : Settles host env site s left)
    (hr : Settles host env site s right) : Settles host env site s (.binary op left right) := by
  have hdecided := BinaryOp.decidedBy_of_isArithmetic hop
  rcases hl with ⟨a, hrunl, hvaluel, hsoundl⟩ | ⟨fault, hrun, part, hpart, hbreaks⟩
  · rcases hr with ⟨b, hrunr, hvaluer, hsoundr⟩ | ⟨fault, hrun, part, hpart, hbreaks⟩
    · have houtl : outcome host env site s left = .ok (.int a) := congrArg Prod.fst hrunl
      have houtr : outcome host env site s right = .ok (.int b) := congrArg Prod.fst hrunr
      rcases BinaryOp.settles_apply hop a b with ⟨n, hn, hgives, hsafe⟩ | ⟨fault, hfault, hfaults⟩
      · refine .inl ⟨n, ?_, fun m => ⟨?_, ?_⟩, ?_⟩
        · rw [run_eval_binary hdecided hrunl hrunr, hn]
        · intro hm
          cases hm with
          | binary ha hb hgives' =>
              rw [(hvaluel _).mp ha, (hvaluer _).mp hb] at hgives'
              exact hgives'.unique hgives
        · rintro rfl
          exact .binary ((hvaluel _).mpr rfl) ((hvaluer _).mpr rfl) hgives
        · refine List.forall_mem_cons.mpr ⟨fun hbreaks => ?_,
            List.forall_mem_append.mpr ⟨hsoundl, hsoundr⟩⟩
          cases hbreaks with
          | binary ha hb hfaults =>
              cases houtl.symm.trans ha
              cases houtr.symm.trans hb
              exact hsafe hfaults
      · refine .inr ⟨fault, ?_, _, self_mem_parts _, .binary houtl houtr hfaults⟩
        rw [run_eval_binary hdecided hrunl hrunr, hfault]
    · exact .inr ⟨fault, run_eval_binary_of_right hdecided hrunl hrun, part,
        List.mem_cons_of_mem _ (List.mem_append_right _ hpart), hbreaks⟩
  · exact .inr ⟨fault, run_eval_binary_of_left hrun, part,
      List.mem_cons_of_mem _ (List.mem_append_left _ hpart), hbreaks⟩

theorem Settles.leaf {e : Expr} {s : σ} {n : Int64}
    (hrun : (e.eval host env site).run s = (.ok (.int n), s))
    (hvalue : ∀ m, Denotes env site e m ↔ m = n.toInt) (hparts : e.parts = [e])
    (hsound : ∀ value, ¬ Breaks value e) : Settles host env site s e := by
  refine .inl ⟨n, hrun, hvalue, ?_⟩
  rw [hparts]
  exact List.forall_mem_singleton.mpr (hsound _)

theorem IsInteger.settles {e : Expr} (h : IsInteger env site e) (host : Host σ) (s : σ) :
    Settles host env site s e := by
  induction h with
  | literal n =>
      refine .leaf rfl (fun m => ⟨?_, ?_⟩) rfl ?_
      · intro hm
        cases hm
        rfl
      · rintro rfl
        exact .literal n
      · intro value hbreaks
        cases hbreaks
  | @name x n hbound =>
      have hresolve : env.resolve x site = .ok (.int n) := by rw [Environment.resolve, hbound]
      refine .leaf (n := n) ?_ (fun m => ⟨?_, ?_⟩) rfl ?_
      · rw [eval, hresolve]
        rfl
      · intro hm
        cases hm with
        | name hbound' =>
            cases hbound.symm.trans hbound'
            rfl
      · rintro rfl
        exact .name hbound
      · intro value hbreaks
        cases hbreaks
  | neg _ ih => exact ih.neg
  | binary hop _ _ ihl ihr => exact ihl.binary hop ihr

/-- An expression of integers is exact or fails: evaluation, which leaves the host alone, ends with
an integer or with an arithmetic fault; an integer that it ends with is the one value of the
expression over the unbounded integers; and it ends with a fault exactly if in some part the
operands have values and a divisor is zero, a result does not fit into 64 bits, or the remainder of
the least integer by minus one is asked for. -/
theorem eval_exact_or_fault {e : Expr} (h : IsInteger env site e) (host : Host σ) (s : σ) :
    ((e.eval host env site).run s).2 = s ∧
    ((∃ v, outcome host env site s e = .ok v) ∨
      ∃ fault, outcome host env site s e = .error (.arithmetic fault)) ∧
    (∀ v, outcome host env site s e = .ok v →
      ∃ n : Int64, v = .int n ∧ ∀ m, Denotes env site e m ↔ m = n.toInt) ∧
    ((∃ fault, outcome host env site s e = .error (.arithmetic fault)) ↔
      ∃ part ∈ e.parts, Breaks (outcome host env site s) part) := by
  rcases h.settles host s with ⟨n, hrun, hvalue, hsound⟩ | ⟨fault, hrun, hbroken⟩
  · have houtcome : outcome host env site s e = .ok (.int n) := congrArg Prod.fst hrun
    refine ⟨congrArg Prod.snd hrun, .inl ⟨_, houtcome⟩, fun v hv => ?_, ⟨?_, ?_⟩⟩
    · cases houtcome.symm.trans hv
      exact ⟨n, rfl, hvalue⟩
    · rintro ⟨fault, hfault⟩
      cases houtcome.symm.trans hfault
    · rintro ⟨part, hpart, hbreaks⟩
      exact absurd hbreaks (hsound part hpart)
  · have houtcome : outcome host env site s e = .error (.arithmetic fault) :=
      congrArg Prod.fst hrun
    refine ⟨congrArg Prod.snd hrun, .inr ⟨_, houtcome⟩, fun v hv => ?_, ⟨?_, ?_⟩⟩
    · cases houtcome.symm.trans hv
    · intro _
      exact hbroken
    · intro _
      exact ⟨fault, houtcome⟩

/-- A quotient and a remainder of a negative dividend, and the remainder that is a fault although
it would be zero. -/
theorem eval_exact_or_fault_remainders :
    let env : Environment :=
      ⟨[.frozen "global" [("n", .int (-7)), ("least", .int (-9223372036854775808))]], false⟩
    let site : Site := ⟨⟨"main.c"⟩, 0⟩
    let two : Expr := .literal (.int 2)
    let sum : Expr :=
      .binary .add (.binary .mul (.binary .div (.name "n") two) (.literal (.int 3)))
        (.binary .rem (.name "n") two)
    let rest : Expr := .binary .rem (.name "least") (.unary .neg (.literal (.int 1)))
    (IsInteger env site sum ∧ ∀ m, Denotes env site sum m ↔ m = -10) ∧
      IsInteger env site rest ∧ ∃ part ∈ rest.parts,
        Breaks (outcome (Host.declining Unit) env site ()) part := by
  intro env site two sum rest
  have hn : env.lookup "n" site = some (.int (-7)) := by decide +kernel
  have hleast : env.lookup "least" site = some (.int (-9223372036854775808)) := by
    decide +kernel
  have hsum : IsInteger env site sum :=
    .binary rfl (.binary rfl (.binary rfl (.name hn) (.literal 2)) (.literal 3))
      (.binary rfl (.name hn) (.literal 2))
  have hrest : IsInteger env site rest := .binary rfl (.name hleast) (.neg (.literal 1))
  refine ⟨⟨hsum, ?_⟩, hrest, ?_⟩
  · have hvalue : (outcome (Host.declining Unit) env site () sum).toOption =
        some (.int (-10)) := by decide +kernel
    obtain ⟨n, hn, hdenotes⟩ :=
      (eval_exact_or_fault hsum (Host.declining Unit) ()).2.2.1 _ (eq_ok_of_toOption hvalue)
    cases hn
    exact hdenotes
  · obtain ⟨-, hends, -, hfaults⟩ := eval_exact_or_fault hrest (Host.declining Unit) ()
    have hnone : (outcome (Host.declining Unit) env site () rest).toOption = none := by
      decide +kernel
    refine hfaults.mp (hends.resolve_left ?_)
    rintro ⟨v, hv⟩
    rw [hv] at hnone
    cases hnone

end Expr

end Preprocessor
