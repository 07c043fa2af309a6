/-
The errors of operators and functions.

Operators and the functions of the language fail for the types of their operands, for a number that
does not fit, for an argument they do not take or for the number of arguments.  They look up no
name, so they never find one unknown.
-/
import Preprocessor.Diagnostic
import Preprocessor.Expr.Eval
import Preprocessor.Proofs.Computation

namespace Preprocessor

variable {α β : Type}

namespace EvalError

/-- Whether an error is one of an operator or a function of the language. -/
def isOfOperation : EvalError → Bool
  | typeMismatch _ _ | arithmetic _ | invalidArgument _ _ | unknownFunction _ _ => true
  | _ => false

theorem kind_ne_of_isOfOperation {err : EvalError} (h : err.isOfOperation = true) :
    err.kind ≠ .unknownVariable := by
  cases err <;> cases h <;> exact DiagnosticKind.noConfusion

end EvalError

/-- If the result is an error, then one of an operator or a function. -/
def OperationErrors (r : Except EvalError α) : Prop :=
  ∀ err, r = .error err → err.isOfOperation = true

namespace OperationErrors

theorem ok (a : α) : OperationErrors (.ok a) := by
  intro err h
  cases h

theorem error {err : EvalError} (h : err.isOfOperation = true) :
    OperationErrors (.error err : Except _ α) := by
  intro err' h'
  cases h'
  exact h

theorem map {r : Except EvalError α} (h : OperationErrors r) (f : α → β) :
    OperationErrors (r.map f) := by
  cases r with
  | ok a => exact ok (f a)
  | error err => exact error (h err rfl)

theorem bind {r : Except EvalError α} {f : α → Except EvalError β} (h : OperationErrors r)
    (hf : ∀ a, OperationErrors (f a)) : OperationErrors (r >>= f) := by
  cases r with
  | ok a => exact hf a
  | error err => exact error (h err rfl)

end OperationErrors

/-! ## Operators -/

namespace Value

theorem operationErrors_checked (op : BinaryOp) (n : Int) : OperationErrors (checked op n) := by
  unfold checked
  split
  · exact .ok _
  · exact .error rfl

theorem operationErrors_quotient (a b : Int64) : OperationErrors (quotient a b) := by
  unfold quotient
  split
  · exact .error rfl
  · exact operationErrors_checked _ _

theorem operationErrors_remainder (a b : Int64) : OperationErrors (remainder a b) := by
  unfold remainder
  split
  · exact .error rfl
  · split
    · exact operationErrors_checked _ _
    · exact .error rfl

theorem operationErrors_widened (op : BinaryOp) (f : Float → Float → Float) (l r : Value) :
    OperationErrors (widened op f l r) := by
  unfold widened
  split
  · exact .ok _
  · exact .error rfl

theorem operationErrors_add (l r : Value) : OperationErrors (l.add r) := by
  unfold add
  split
  · exact operationErrors_checked _ _
  · exact .ok _
  · exact .ok _
  · exact .ok _
  · exact .ok _
  · exact operationErrors_widened _ _ _ _

theorem operationErrors_sub (l r : Value) : OperationErrors (l.sub r) := by
  unfold sub
  split
  · exact operationErrors_checked _ _
  · exact .ok _
  · exact .ok _
  · exact operationErrors_widened _ _ _ _

theorem operationErrors_mul (l r : Value) : OperationErrors (l.mul r) := by
  unfold mul
  split
  · exact operationErrors_checked _ _
  · exact operationErrors_widened _ _ _ _

theorem operationErrors_div (l r : Value) : OperationErrors (l.div r) := by
  unfold div
  split
  · exact operationErrors_quotient _ _
  · exact operationErrors_widened _ _ _ _

theorem operationErrors_rem (l r : Value) : OperationErrors (l.rem r) := by
  unfold rem
  split
  · exact operationErrors_remainder _ _
  · exact operationErrors_widened _ _ _ _

theorem operationErrors_equals (op : BinaryOp) (l r : Value) : OperationErrors (equals op l r) := by
  unfold equals
  split
  · exact .ok _
  · exact .ok _
  · exact .ok _
  · exact .ok _
  · split
    · exact .ok _
    · exact .error rfl

theorem operationErrors_order (op : BinaryOp) (l r : Value) : OperationErrors (order op l r) := by
  unfold order
  split
  · exact .ok _
  · exact .ok _
  · split
    · exact .ok _
    · exact .error rfl

theorem operationErrors_member (op : BinaryOp) (l r : Value) : OperationErrors (member op l r) := by
  unfold member
  split
  · exact .ok _
  · exact .ok _
  · exact .error rfl

theorem operationErrors_logical (op : BinaryOp) (f : Bool → Bool → Bool) (l r : Value) :
    OperationErrors (logical op f l r) := by
  unfold logical
  split
  · exact .ok _
  · exact .error rfl

end Value

theorem BinaryOp.operationErrors_apply (op : BinaryOp) (l r : Value) :
    OperationErrors (op.apply l r) := by
  cases op with
  | add => exact l.operationErrors_add r
  | sub => exact l.operationErrors_sub r
  | mul => exact l.operationErrors_mul r
  | div => exact l.operationErrors_div r
  | rem => exact l.operationErrors_rem r
  | eq | ne => exact (Value.operationErrors_equals _ l r).map _
  | lt | le | gt | ge => exact (Value.operationErrors_order _ l r).map _
  | mem => exact (Value.operationErrors_member _ l r).map _
  | and | or => exact Value.operationErrors_logical _ _ l r

theorem UnaryOp.operationErrors_apply (op : UnaryOp) (v : Value) :
    OperationErrors (op.apply v) := by
  unfold UnaryOp.apply
  split
  · exact .ok _
  · split
    · exact .ok _
    · exact .error rfl
  · exact .ok _
  · exact .error rfl

/-! ## Functions -/

namespace Function

theorem operationErrors_string (f : Function) (v : Value) : OperationErrors (f.string v) := by
  unfold string
  split
  · exact .ok _
  · exact .error rfl

theorem operationErrors_fromFloat (f : Function) (x : Float) (n : Int) :
    OperationErrors (f.fromFloat x n) := by
  unfold fromFloat
  split
  · exact .ok _
  · exact .error rfl

theorem operationErrors_toInt (v : Value) : OperationErrors (toInt v) := by
  cases v with
  | int n => exact .ok _
  | bool b => exact .ok _
  | str s =>
      unfold toInt
      dsimp only
      split
      · exact .ok _
      · exact .error rfl
  | float x =>
      unfold toInt
      dsimp only
      split
      · exact operationErrors_fromFloat _ _ _
      · exact .error rfl
  | set s => exact .error rfl

theorem operationErrors_toFloat (v : Value) : OperationErrors (toFloat v) := by
  cases v with
  | int n => exact .ok _
  | bool b => exact .ok _
  | str s =>
      unfold toFloat
      dsimp only
      split
      · exact .ok _
      · exact .error rfl
  | float x => exact .ok _
  | set s => exact .error rfl

theorem operationErrors_toBool (v : Value) : OperationErrors (toBool v) := by
  unfold toBool
  split
  · exact .ok _
  · exact .ok _
  · split
    · exact .ok _
    · split
      · exact .ok _
      · exact .error rfl
  · exact .error rfl

theorem operationErrors_toAbs (v : Value) : OperationErrors (toAbs v) := by
  unfold toAbs
  -- whether a number fits is kept from being computed, which would count the bound down to zero
  obtain ⟨fits, hfits⟩ : ∃ fits, fits = Decimal.int64? := ⟨_, rfl⟩
  rw [← hfits]
  split
  · split
    · exact .ok _
    · exact .error rfl
  · exact .ok _
  · exact .error rfl

theorem operationErrors_toRound (v : Value) : OperationErrors (toRound v) := by
  unfold toRound
  split
  · exact .ok _
  · split
    · exact operationErrors_fromFloat _ _ _
    · exact .error rfl
  · exact .error rfl

theorem operationErrors_index (v : Value) : OperationErrors (index v) := by
  unfold index
  split
  · split
    · exact .ok _
    · exact .error rfl
  · exact .error rfl

theorem operationErrors_toSubstr (s start : Value) (len : Option Value) :
    OperationErrors (toSubstr s start len) := by
  refine (operationErrors_string _ s).bind fun text => ?_
  refine (operationErrors_index start).bind fun n => ?_
  cases len with
  | none => exact .ok _
  | some v => exact (operationErrors_index v).bind fun _ => .ok _

theorem operationErrors_toSize (v : Value) : OperationErrors (toSize v) := by
  unfold toSize
  split
  · exact .ok _
  · exact .ok _
  · exact .error rfl

theorem operationErrors_apply (f : Function) (args : List Value) :
    OperationErrors (f.apply args) := by
  unfold apply
  split
  · exact .ok _
  · exact operationErrors_toInt _
  · exact operationErrors_toFloat _
  · exact operationErrors_toBool _
  · exact (operationErrors_string _ _).map _
  · exact (operationErrors_string _ _).map _
  · exact (operationErrors_string _ _).map _
  · exact (operationErrors_string _ _).map _
  · exact operationErrors_toSubstr _ _ _
  · exact operationErrors_toSubstr _ _ _
  · exact operationErrors_toAbs _
  · exact operationErrors_toRound _
  · exact (Value.operationErrors_member _ _ _).map _
  · exact .ok _
  · exact operationErrors_toSize _
  · exact .error rfl

end Function

theorem Expr.operationErrors_evalDefined (env : Environment) (site : Site) (args : List Expr) :
    OperationErrors (evalDefined env site args) := by
  unfold evalDefined
  split
  · exact .ok _
  · exact .error rfl

end Preprocessor
