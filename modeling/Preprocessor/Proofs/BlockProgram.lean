/-
Block programs: lines and nested blocks, read as a tree.

The same lines have two readings.  Fed one by one to the engine, they push, change and pop open
blocks.  Read as a tree, a block tries its conditions in order, runs the branch of the first
one that holds, and touches nothing of the others; there is no stack, only the number of blocks
around a line.  Both readings stop at the first line that fails or excludes the file.
-/
import Preprocessor.Proofs.LineSteps

namespace Preprocessor

/-! ## Lines as a tree -/

/-- A line that shapes no block. -/
structure OrdinaryLine where
  content : String
  ordinary : LineKind.isOrdinary content = true

structure DirectiveLine (d : Directive) where
  content : String
  reads : LineKind.classify content = .ok (.directive d)

mutual

/-- Lines and whole blocks, in order. -/
inductive BlockProgram where
  | done
  | line (l : OrdinaryLine) (rest : BlockProgram)
  | block (t : Test) (l : DirectiveLine t.directive) (body : BlockProgram)
      (branches : Branches) (rest : BlockProgram)

/-- What follows the first branch of a block, up to its end. -/
inductive Branches where
  | endIf (l : DirectiveLine .endIf)
  | otherwise (l : DirectiveLine .otherwise) (body : BlockProgram)
      (last : DirectiveLine .endIf)
  | elseIf (expr : String) (l : DirectiveLine (.elseIf expr)) (body : BlockProgram)
      (more : Branches)

end

mutual

/-- The lines of a block program, as they stand in a file. -/
def BlockProgram.lines : BlockProgram → List String
  | .done => []
  | .line l rest => l.content :: rest.lines
  | .block _ l body branches rest =>
    l.content :: (body.lines ++ (branches.lines ++ rest.lines))

def Branches.lines : Branches → List String
  | .endIf l => [l.content]
  | .otherwise l body last => l.content :: (body.lines ++ [last.content])
  | .elseIf _ l body more => l.content :: (body.lines ++ more.lines)

end

/-! ## Stopping -/

/-- Why lines are not followed any further. -/
inductive Stop where
  | excluded
  | failed (fault : Fault)

/-- The line after which no other is followed, and why. -/
structure Halt where
  line : Nat
  stop : Stop

/-- Whether lines are followed any further after the outcome of a line. -/
def Halt.verdict (n : Nat) : Except Fault Step → Except Halt Unit
  | .ok .exclude => .error ⟨n, .excluded⟩
  | .ok _ => .ok ()
  | .error fault => .error ⟨n, .failed fault⟩

/-- What the outcome of a line hands on: a text to emit or a file to include. -/
def Step.handedOn : Except Fault Step → List Step
  | .ok (.emit text) => [.emit text]
  | .ok (.includeFile target) => [.includeFile target]
  | _ => []

/-! ## Fed line by line -/

variable {σ α : Type}

/-- The state of feeding: the scope of the file, the engine, and what was handed on. -/
structure Feed (σ : Type) where
  scope : Scope
  engine : Engine σ
  handedOn : List Step := []

/-- A computation on the state of feeding, which keeps its changes when it stops. -/
abbrev FeedM (σ : Type) := ExceptT Halt (StateM (Feed σ))

section Reading

variable (host : Host σ) (site : Nat → Site)

def feedLine (n : Nat) (content : String) : FeedM σ Unit :=
  ExceptT.mk fun f =>
    let (r, scope, e) := f.engine.processLine host (site n) content f.scope
    (Halt.verdict n r, ⟨scope, e, f.handedOn ++ Step.handedOn r⟩)

/-- Feeds lines to the engine, the first being line `n`, up to one that fails or excludes. -/
def feed : (n : Nat) → List String → FeedM σ Unit
  | _, [] => pure ()
  | n, content :: rest => do
    feedLine host site n content
    feed (n + 1) rest

/-! ## Run as a tree -/

/-- What running a block program works on. -/
structure World (σ : Type) where
  engine : Engine σ
  outputOn : Bool
  commentNext : Bool
  emitted : Nat
  /-- The number of blocks around the current line. -/
  depth : Nat
  handedOn : List Step

/-- The scope of a line with no block open. -/
def World.scope (w : World σ) : Scope where
  outputOn := w.outputOn
  commentNext := w.commentNext
  emitted := w.emitted

/-- A computation on a world, which keeps its changes when it stops. -/
abbrev WorldM (σ : Type) := ExceptT Halt (StateM (World σ))

namespace WorldM

def line (n : Nat) (content : String) : WorldM σ Unit :=
  ExceptT.mk fun w =>
    let (r, s, e) := w.engine.processLine host (site n) content w.scope
    (Halt.verdict n r,
      ⟨e, s.outputOn, s.commentNext, s.emitted, w.depth, w.handedOn ++ Step.handedOn r⟩)

/-- Evaluates a condition that stands on line `n`. -/
def decide (n : Nat) (x : EngineM σ Bool) : WorldM σ Bool :=
  ExceptT.mk fun w =>
    match x.run w.engine with
    | (.ok b, e) => (.ok b, { w with engine := e })
    | (.error fault, e) => (.error ⟨n, .failed fault⟩, { w with engine := e })

/-- Runs inside a block. -/
def inside (x : WorldM σ α) : WorldM σ α := do
  modify fun w => { w with depth := w.depth + 1 }
  let a ← x
  modify fun w => { w with depth := w.depth - 1 }
  return a

end WorldM

mutual

/-- Runs a block program whose first line is line `n`. -/
def BlockProgram.run : BlockProgram → (n : Nat) → WorldM σ Unit
  | .done, _ => pure ()
  | .line l rest, n => do
    WorldM.line host site n l.content
    rest.run (n + 1)
  | .block t _ body branches rest, n => do
    if ← WorldM.decide n (t.value host (site n)) then
      WorldM.inside (body.run (n + 1))
    else
      branches.run (n + 1 + body.lines.length)
    rest.run (n + 1 + body.lines.length + branches.lines.length)

/-- Runs the first of the further branches that is selected, if there is one. -/
def Branches.run : Branches → (n : Nat) → WorldM σ Unit
  | .endIf _, _ => pure ()
  | .otherwise _ body _, n => WorldM.inside (body.run (n + 1))
  | .elseIf expr _ body more, n => do
    if ← WorldM.inside (WorldM.decide n (EngineM.condition host (site n) expr)) then
      WorldM.inside (body.run (n + 1))
    else
      more.run (n + 1 + body.lines.length)

end

end Reading

/-- The state of feeding without the open blocks, of which only the number is kept. -/
def Feed.world (f : Feed σ) : World σ where
  engine := f.engine
  outputOn := f.scope.outputOn
  commentNext := f.scope.commentNext
  emitted := f.scope.emitted
  depth := f.scope.conditions.depth
  handedOn := f.handedOn

end Preprocessor
