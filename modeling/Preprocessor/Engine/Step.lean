/-
What a line does.

A line is emitted, skipped, asks for a file to be included, or excludes the file from here
on.  It works on the scope of its file (open blocks, output switches) and on what the file
shares with the files it includes (variables, the name of the output, the log, the host).
In a suppressed region only the directives that shape the blocks are looked at.
-/
import Preprocessor.Directive.Basic
import Preprocessor.Directive.Inline
import Preprocessor.Engine.Conditions
import Preprocessor.Expr.Eval
import Preprocessor.Log

namespace Preprocessor

/-- The state of one file. -/
structure Scope where
  conditions : Conditions := {}
  /-- Lines of text are let through. -/
  outputOn : Bool := true
  /-- The next emitted line becomes a comment. -/
  commentNext : Bool := false
  /-- The number of emitted lines. -/
  emitted : Nat := 0
deriving DecidableEq

/-- What a root file shares with the files it includes. -/
structure Engine (σ : Type) where
  env : Environment
  host : σ
  outname : Option String := none
  log : Log := #[]

inductive Step where
  /-- The text is written with the end of the line. -/
  | emit (text : String)
  /-- Nothing is written, or the end of the line alone. -/
  | skip
  /-- A file takes the place of the line. -/
  | includeFile (target : String)
  /-- The file ends here. -/
  | exclude
deriving DecidableEq

/-- A computation on an engine, which keeps its changes when it fails. -/
abbrev EngineM (σ : Type) := ExceptT Fault (StateM (Engine σ))

/-- A computation on the scope of a file and an engine, likewise. -/
abbrev LineM (σ : Type) := ExceptT Fault (StateM (Scope × Engine σ))

namespace EngineM

variable {σ α : Type}

/-- A computation that calls the host. -/
def ofHosted (x : Environment → Hosted σ Fault α) : EngineM σ α :=
  ExceptT.mk fun e =>
    let (r, host) := (x e.env).run e.host
    (r, { e with host := host })

/-- The computation on a scope that leaves the scope alone. -/
def toLine (x : EngineM σ α) : LineM σ α :=
  ExceptT.mk fun (scope, e) =>
    let (r, e) := x.run e
    (r, (scope, e))

def record (level : Level) (message : String) : EngineM σ Unit :=
  modify fun e => { e with log := e.log.push ⟨level, message⟩ }

/-- Replaces the variables by those of a change that may fail. -/
def change (f : Environment → Except EvalError Environment) : EngineM σ Unit := do
  match f (← get).env with
  | .ok env => modify fun e => { e with env := env }
  | .error err => throw (.eval err)

variable (host : Host σ) (site : Site)

/-- The value of the expression that a text holds. -/
def value (s : String) : EngineM σ Value :=
  ofHosted fun env => (evaluate host env site s).withError .eval

def string (keyword s : String) : EngineM σ String := do
  match ← value host site s with
  | .str text => return text
  | v => throw (.notAString keyword v)

/-- The value of an expression that has to be a truth value. -/
def condition (s : String) : EngineM σ Bool := do
  match ← value host site s with
  | .bool b => return b
  | v => throw (.notACondition v)

def substituted (s : String) : EngineM σ String :=
  ofHosted fun env =>
    Inline.substitute (fun expr => Value.text <$> (evaluate host env site expr).withError .eval) s

/-- Sets a variable to the value of an expression, to true if there is none. -/
def define (name : String) (expr : Option String) : EngineM σ Unit := do
  let v ← match expr with
    | some s => value host site s
    | none => pure (.bool true)
  change (·.assign name v)

def undefine (name : String) : EngineM σ Unit :=
  change fun env => (env.remove name).map (·.2)

/-- Performs an action of the host on the values of expressions. -/
def action (args : String) : EngineM σ Unit := do
  match Expr.parseList args with
  | .error e => throw (.eval (.parse e))
  | .ok exprs =>
    let values ← ofHosted fun env => (Expr.evalAll host env site exprs).withError .eval
    if ← ofHosted fun _ => .ask (host.takesAction · values.length) then
      if ← ofHosted fun _ => .act host site values then return
      throw .actionRejected
    else throw (.noActionHandler values.length)

end EngineM

namespace LineM

variable {σ : Type}

def scope : LineM σ Scope := do
  return (← get).1

def changeScope (f : Scope → Scope) : LineM σ Unit :=
  modify fun (s, e) => (f s, e)

def setConditions (c : Conditions) : LineM σ Unit :=
  changeScope fun s => { s with conditions := c }

def emit (text : String) : LineM σ Step := do
  let s ← scope
  changeScope fun s => { s with emitted := s.emitted + 1, commentNext := false }
  return .emit (if s.commentNext then "//" ++ text else text)

/-- Settles what is pending, with the value of a condition if one is asked for. -/
def settle (pending : Conditions.Pending) (condition : LineM σ Bool) : LineM σ Unit := do
  match pending with
  | .settled c => setConditions c
  | .asks next => setConditions (next (← condition))

variable (host : Host σ) (site : Site)

def isDefined (name : String) : LineM σ Bool := do
  return (← get).2.env.isDefined name site

/-- Follows a directive that shapes the blocks. -/
def conditional (d : Directive) : LineM σ Step := do
  let c := (← scope).conditions
  match d with
  | .ifTrue expr => settle (c.openBlock site.line) (EngineM.condition host site expr).toLine
  | .ifDefined name => settle (c.openBlock site.line) (isDefined site name)
  | .ifNotDefined name => settle (c.openBlock site.line) (not <$> isDefined site name)
  | .elseIf expr =>
    let pending ← liftExcept c.elseIf
    settle pending (EngineM.condition host site expr).toLine
  | .otherwise => setConditions (← liftExcept c.otherwise)
  | .endIf => setConditions (← liftExcept c.close)
  | _ => pure ()
  return .skip
where
  /-- A result that involves no state. -/
  liftExcept {α : Type} (r : Except Fault α) : LineM σ α := ExceptT.mk (pure r)

def plain (d : Directive) : LineM σ Step := do
  match d with
  | .excludeIf expr =>
    if ← (EngineM.condition host site expr).toLine then
      changeScope fun s => { s with conditions := s.conditions.exclude }
      return .exclude
  | .define name expr => (EngineM.define host site name expr).toLine
  | .undefine name => (EngineM.undefine name).toLine
  | .defineGlobal name _ => throw (.globalOutside name)
  | .includeFile expr =>
    return .includeFile (← (EngineM.string host site "include" expr).toLine)
  | .action args => (EngineM.action host site args).toLine
  | .outname expr =>
    let name ← (EngineM.string host site "outname" expr).toLine
    if (Text.trim name.toList).isEmpty then throw .emptyOutname
    modify fun (s, e) => (s, { e with outname := some name })
  | .error expr =>
    let v ← (EngineM.value host site expr).toLine
    throw (.user v.text)
  | .warning expr =>
    let v ← (EngineM.value host site expr).toLine
    (EngineM.record .warning ((Position.mk site.file site.line).text ++ ": " ++ v.text)).toLine
  | .echo expr =>
    let v ← (EngineM.value host site expr).toLine
    (EngineM.record .info v.text).toLine
  | .outputOff => changeScope fun s => { s with outputOn := false }
  | .outputOn => changeScope fun s => { s with outputOn := true }
  | .commentNext => changeScope fun s => { s with commentNext := true }
  | .unknown text => throw (.unknownDirective text)
  | _ => pure ()
  return .skip

/-- Follows a line that is read whatever the region. -/
def lineInFull (content : String) : LineM σ Step := do
  let s ← scope
  match LineKind.classify content with
  | .error fault => throw fault
  | .ok (.directive d) =>
    if d.isConditional then conditional host site d
    else if s.conditions.isActive then plain host site d
    else return .skip
  | .ok .text =>
    if s.conditions.isActive && s.outputOn then
      emit (← (EngineM.substituted host site content).toLine)
    else return .skip
  | .ok (.toggle indent body raw) =>
    if s.conditions.isActive && s.outputOn then
      let body ← if raw then pure body else (EngineM.substituted host site body).toLine
      emit (indent ++ body)
    else return .skip

/-- Follows a line.  In a suppressed region a quick look passes over directives that do not shape
the blocks. -/
def line (content : String) : LineM σ Step := do
  let s ← scope
  if !s.conditions.isActive && LineKind.isPlainDirective content then return .skip
  else lineInFull host site content

end LineM

/-- Follows a line of a file: what is to be done, and the scope and the engine after it. -/
def Engine.processLine {σ : Type} (host : Host σ) (site : Site) (content : String)
    (scope : Scope) (e : Engine σ) : Except Fault Step × Scope × Engine σ :=
  (LineM.line host site content).run (scope, e)

end Preprocessor
