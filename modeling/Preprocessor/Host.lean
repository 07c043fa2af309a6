/-
The host of a run: functions and actions that the language itself does not have.

A host keeps a state of its own, which every question and call may look at and every call may
change.  It is asked whether it knows a function or takes an action before it is called.  A call may
also ask for the end of the run.  The host is not the only one who can do so: whether anyone else
has is given to a session apart from its host.
-/
import Preprocessor.Environment

namespace Preprocessor

structure Host (σ : Type) where
  /-- Whether the host takes an action with so many arguments. -/
  takesAction : σ → Nat → Bool
  /-- Whether the host knows a function with so many arguments. -/
  knowsFunction : σ → String → Nat → Bool
  /-- Performs an action; false rejects it. -/
  act : Site → List Value → σ → Bool × σ
  /-- Calls a function. -/
  call : Site → String → List Value → σ → Except EvalError Value × σ
  /-- Whether a call has asked the run to stop. -/
  wantsStop : σ → Bool

def Host.declining (σ : Type) : Host σ where
  takesAction _ _ := false
  knowsFunction _ _ _ := false
  act _ _ s := (false, s)
  call _ name args s := (.error (.unknownFunction name args.length), s)
  wantsStop _ := false

/-- A computation that may call the host and may fail; the state of the host outlives a
failure. -/
abbrev Hosted (σ ε : Type) := ExceptT ε (StateM σ)

namespace Hosted

variable {σ ε α : Type}

/-- A result that does not involve the host. -/
def ofExcept (r : Except ε α) : Hosted σ ε α :=
  ExceptT.mk (pure r)

def callFunction (host : Host σ) (site : Site) (name : String) (args : List Value) :
    Hosted σ EvalError Value :=
  ExceptT.mk fun s => host.call site name args s

def act (host : Host σ) (site : Site) (args : List Value) : Hosted σ ε Bool :=
  ExceptT.mk fun s =>
    let (accepted, s) := host.act site args s
    (.ok accepted, s)

def ask (question : σ → α) : Hosted σ ε α :=
  ExceptT.mk fun s => (.ok (question s), s)

/-- The computation with its errors seen as others. -/
def withError {ε' : Type} (f : ε → ε') (x : Hosted σ ε α) : Hosted σ ε' α :=
  ExceptT.mk fun s =>
    match x.run s with
    | (.ok a, s) => (.ok a, s)
    | (.error e, s) => (.error (f e), s)

end Hosted

end Preprocessor
