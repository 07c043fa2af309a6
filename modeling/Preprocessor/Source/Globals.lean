/-
Files of global definitions.

They are read before any source file.  Of their lines only definitions and their removals
count; lines of text are ignored, and any other directive is an error.
-/
import Preprocessor.Source.Process

namespace Preprocessor

namespace GlobalFile

variable {σ : Type}

def followLine (host : Host σ) (site : Site) (content : String) : EngineM σ Unit :=
  match LineKind.classify content with
  | .error fault => throw fault
  | .ok (.directive (.defineGlobal name expr)) => EngineM.define host site name expr
  | .ok (.directive (.define name expr)) => EngineM.define host site name expr
  | .ok (.directive (.undefine name)) => EngineM.undefine name
  | .ok (.directive _) => throw (.notADefinition content)
  | .ok _ => pure ()

def followLines (host : Host σ) (path : Path) : (index : Nat) → List Line → RunM σ Unit
  | _, [] => pure ()
  | index, line :: rest => do
    ExceptT.mk fun e =>
      match (followLine host ⟨path, index⟩ line.content).run e with
      | (.ok (), e) => (.ok (), e)
      | (.error fault, e) => (.error (.failing fault line.content [⟨path, index⟩]), e)
    followLines host path (index + 1) rest

def readText (t : FileTree) (encoding : Encoding) (path : Path) : Except Fault String :=
  match t.read path with
  | .error e => .error (.file (.readGlobals e) path)
  | .ok bytes =>
    match encoding.decode bytes with
    | .error e => .error (.file (.decodeGlobals e) path)
    | .ok decoded => .ok decoded.text

def load (host : Host σ) (t : FileTree) (encoding : Encoding) (path : Path) : RunM σ Unit := do
  modify fun e =>
    { e with log := e.log.push ⟨.debug, "Loading global definitions from " ++ path.text⟩ }
  match readText t encoding path with
  | .error fault => throw ⟨fault, none, []⟩
  | .ok text => followLines host path 0 (Text.lines text)

/-- Applies definition files in order. -/
def loadAll (host : Host σ) (t : FileTree) (encoding : Encoding) : List Path → RunM σ Unit
  | [] => pure ()
  | path :: rest => do
    load host t encoding path
    loadAll host t encoding rest

end GlobalFile

end Preprocessor
