/-
The value of an expression.

Operands and arguments are evaluated from left to right and before what they belong to.  The
right operand of `&&` and `||` is left alone if the left one decides, and the argument of
`defined` is a name, which is not evaluated at all.
-/
import Preprocessor.Expr.Parse
import Preprocessor.Host
import Preprocessor.Value.Functions

namespace Preprocessor

/-- The truth value that decides a logical operator by its left operand alone. -/
def BinaryOp.decidedBy : BinaryOp → Option Bool
  | and => some false
  | or => some true
  | _ => none

namespace Expr

def definedName? : List Expr → Option String
  | [.name s] => some s
  | [.literal (.str s)] => some s
  | _ => none

def evalDefined (env : Environment) (site : Site) (args : List Expr) : Except EvalError Value :=
  match definedName? args with
  | some s => .ok (.bool (env.isDefined s site))
  | none => .error (.invalidArgument "defined" .notAName)

variable {σ : Type}

mutual

def eval (host : Host σ) (env : Environment) (site : Site) : Expr → Hosted σ EvalError Value
  | literal v => pure v
  | .name s => .ofExcept (env.resolve s site)
  | unary op operand => do
    let v ← eval host env site operand
    .ofExcept (op.apply v)
  | binary op left right => do
    let l ← eval host env site left
    match op.decidedBy with
    | none =>
      let r ← eval host env site right
      .ofExcept (op.apply l r)
    | some decisive =>
      match l.bool? with
      | none => throw (mismatch op [l])
      | some b =>
        if b = decisive then return .bool b
        let r ← eval host env site right
        match r.bool? with
        | some c => return .bool c
        | none => throw (mismatch op [l, r])
  | call s args =>
    if s = "defined" then .ofExcept (evalDefined env site args)
    else
      match Function.ofName? s with
      | some f => do
        let values ← evalAll host env site args
        .ofExcept (f.apply values)
      | none => do
        if ← .ask (host.knowsFunction · s args.length) then
          let values ← evalAll host env site args
          .callFunction host site s values
        else throw (.unknownFunction s args.length)
  | set items => do
    let values ← evalAll host env site items
    return .set (.ofList (values.map Value.text))

def evalAll (host : Host σ) (env : Environment) (site : Site) :
    List Expr → Hosted σ EvalError (List Value)
  | [] => pure []
  | e :: es => do
    let v ← eval host env site e
    let vs ← evalAll host env site es
    return v :: vs

end

end Expr

/-- The value of the expression that a text holds. -/
def evaluate {σ : Type} (host : Host σ) (env : Environment) (site : Site) (s : String) :
    Hosted σ EvalError Value :=
  match Expr.parse s with
  | .ok e => e.eval host env site
  | .error e => throw (.parse e)

end Preprocessor
