/-
A source file and all it includes, as one text.

Lines are followed in order.  An included file takes the place of the line that asks for it,
with a scope of its own and the same variables.  A file that is open is not included again,
so the open files are distinct files of the tree and inclusion is never deeper than the tree
has files.
-/
import Preprocessor.Engine.Step
import Preprocessor.Source.Trail

namespace Preprocessor

structure Options where
  encoding : Encoding := .utf8
  /-- A line that is not emitted leaves its end. -/
  keepLines : Bool := false
  removeComments : Bool := false
  strictness : Text.Strictness := .lenient
  /-- Where included files are looked for after the directory of the including file. -/
  includePaths : List Path := []

structure Output where
  text : String := ""
  /-- The number of emitted lines. -/
  emitted : Nat := 0

inductive FileEnd where
  | completed
  | excluded
deriving DecidableEq

/-- What becomes of a source file. -/
inductive Outcome where
  | text (text : String) (bom : Bool) (outname : Option String)
  /-- The file excluded itself before any line was emitted. -/
  | excluded
deriving DecidableEq

/-- A computation on an engine that fails with a diagnostic; the engine outlives a failure. -/
abbrev RunM (σ : Type) := ExceptT Diagnostic (StateM (Engine σ))

namespace Source

variable {σ : Type}

/-- The places where an included file is looked for. -/
def candidates (options : Options) (current : Path) (target : String) : List Path :=
  let target : Path := ⟨target⟩
  if target.isAbsolute then [target]
  else (current.parent.toList ++ options.includePaths).map (·.join target)

def findInclude (t : FileTree) (options : Options) (current : Path) (target : String) :
    Except Fault Path :=
  match (candidates options current target).find? t.isFile with
  | some path => .ok path
  | none => .error (.includeNotFound target)

def readText (t : FileTree) (options : Options) (path : Path) : Except Fault Decoded :=
  match t.read path with
  | .error e => .error (.file (.read e) path)
  | .ok bytes =>
    match options.encoding.decode bytes with
    | .error e => .error (.file (.decode e) path)
    | .ok decoded => .ok decoded

def openInclude (t : FileTree) (options : Options) (trail : Trail) (current : Path)
    (target : String) : Except Fault Path :=
  match findInclude t options current target with
  | .error fault => .error fault
  | .ok path => if trail.holds t path then .error (.recursiveInclude path) else .ok path

def followLine (host : Host σ) (trail : Trail) (site : Site) (content : String) (scope : Scope) :
    RunM σ (Step × Scope) :=
  ExceptT.mk fun e =>
    match e.processLine host site content scope with
    | (.ok step, scope, e) => (.ok (step, scope), e)
    | (.error fault, _, e) => (.error (.failing fault content trail), e)

/-- The output with a line written as its step says, unless the step asks for a file. -/
def write (options : Options) (line : Line) (out : Output) : Step → Output
  | .emit text => ⟨out.text ++ text ++ line.terminator, out.emitted + 1⟩
  | .skip => if options.keepLines then { out with text := out.text ++ line.terminator } else out
  | _ => out

/-- How the lines of a file ended, the scope after them, and the output. -/
abbrev LinesEnd := FileEnd × Scope × Output

/-- Follows the lines of a file from one on; `descend` processes an included file. -/
def followLines (host : Host σ) (t : FileTree) (options : Options)
    (descend : Trail → Path → Output → RunM σ Output) (trail : Trail) (path : Path) :
    (index : Nat) → List Line → Scope → Output → RunM σ LinesEnd
  | _, [], scope, out => return (.completed, scope, out)
  | index, line :: rest, scope, out => do
    let trail := trail.atLine index
    let (step, scope) ← followLine host trail ⟨path, index⟩ line.content scope
    match step with
    | .exclude => return (.excluded, scope, out)
    | .includeFile target =>
      match openInclude t options trail path target with
      | .error fault => throw (.failing fault line.content trail)
      | .ok included =>
        let out ← descend (trail.enter included) included out
        followLines host t options descend trail path (index + 1) rest scope out
    | step =>
      followLines host t options descend trail path (index + 1) rest scope
        (write options line out step)

/-- The diagnostic for a file that ends with a block open. -/
def unclosed (trail : Trail) (lines : List Line) (line : Nat) : Diagnostic :=
  .failing (.unclosedIf line) ((lines[line]?.map Line.content).getD "") (trail.atLine line)

/-- Processes the innermost file of a trail; `descend` processes an included file. -/
def processWith (host : Host σ) (t : FileTree) (options : Options)
    (descend : Trail → Path → Output → RunM σ Output) (trail : Trail) (path : Path)
    (out : Output) : RunM σ (FileEnd × Bool × Output) :=
  match readText t options path with
  | .error fault => throw (Diagnostic.withFrames ⟨fault, none, []⟩ trail)
  | .ok decoded => do
    let lines := Text.lines decoded.text
    let (fileEnd, scope, out) ← followLines host t options descend trail path 0 lines {} out
    match fileEnd, scope.conditions.innermostOpen with
    | .completed, some line => throw (unclosed trail lines line)
    | fileEnd, _ => return (fileEnd, decoded.bom, out)

/-- Processes the innermost file of a trail, which may include files to a depth of `room`.  With
no room left every file is open, so that any inclusion is recursive. -/
def process (host : Host σ) (t : FileTree) (options : Options) :
    (room : Nat) → Trail → Path → Output → RunM σ (FileEnd × Bool × Output)
  | 0, trail, path, _ => throw (Diagnostic.withFrames ⟨.recursiveInclude path, none, []⟩ trail)
  | room + 1, trail, path, out =>
    let descend := fun trail path out => do
      let (_, _, out) ← process host t options room trail path out
      return out
    processWith host t options descend trail path out

/-- The text without its comments, if they are to be removed. -/
def finish (options : Options) (root : Path) (text : String) : Except Diagnostic String :=
  if options.removeComments then
    match Text.stripComments text options.strictness with
    | .ok text => .ok text
    | .error e => .error (Diagnostic.withFrames ⟨.unterminatedComment e, none, []⟩ [⟨root, 0⟩])
  else .ok text

/-- Processes a root file and all it includes to a depth of `room`. -/
def preprocessWithin (host : Host σ) (t : FileTree) (options : Options) (room : Nat)
    (root : Path) : RunM σ Outcome := do
  let (fileEnd, bom, out) ← process host t options room (Trail.enter [] root) root {}
  if fileEnd = .excluded ∧ out.emitted = 0 then return .excluded
  match finish options root out.text with
  | .error d => throw d
  | .ok text => return .text text bom (← get).outname

def preprocess (host : Host σ) (t : FileTree) (options : Options) (root : Path) :
    RunM σ Outcome :=
  preprocessWithin host t options (t.files.length + 1) root

end Source

end Preprocessor
