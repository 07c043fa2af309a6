/-
Variables and where they come from.

A chain of layers answers look-ups, the first hit counting.  Writes go to the first layer
that takes them.  A name that no layer knows is an error, or false if the environment says
so.
-/
import Preprocessor.Calendar
import Preprocessor.Eval.Error
import Preprocessor.Path

namespace Preprocessor

/-- The place of an expression: a file and a line of it, counted from zero. -/
structure Site where
  file : Path
  line : Nat

/-- Variables and their values; a name occurs once. -/
abbrev Variables := List (String × Value)

namespace Variables

def get? (vars : Variables) (name : String) : Option Value :=
  vars.lookup name

def set (name : String) (v : Value) : Variables → Variables
  | [] => [(name, v)]
  | (n, w) :: rest => if n == name then (n, v) :: rest else (n, w) :: set name v rest

def erase (vars : Variables) (name : String) : Variables :=
  vars.filter (·.1 != name)

/-- The variables of a list of definitions, the last for a name counting. -/
def ofList (definitions : List (String × Value)) : Variables :=
  definitions.foldl (fun vars d => set d.1 d.2 vars) []

def override (vars more : Variables) : Variables :=
  more.foldl (fun acc d => set d.1 d.2 acc) vars

end Variables

/-- A source of variables. -/
inductive Layer where
  /-- Variables that take writes. -/
  | store (name : String) (vars : Variables)
  /-- Variables that do not. -/
  | frozen (name : String) (vars : Variables)
  /-- Facts of the machine, and the variables of the process. -/
  | system (process : List (String × String))
  /-- Facts of the place of an expression, and of a run that began at a moment. -/
  | builtin (started : Moment)

namespace Layer

def name : Layer → String
  | store name _ => name
  | frozen name _ => name
  | system _ => "system"
  | builtin _ => "builtin"

def isWritable : Layer → Bool
  | store _ _ => true
  | _ => false

def variables? : Layer → Option Variables
  | store _ vars => some vars
  | frozen _ vars => some vars
  | _ => none

/-- A variable of the process, or a fact of the machine. -/
def lookupSystem (process : List (String × String)) (name : String) : Option Value :=
  match name.toList with
  | 'e' :: 'n' :: 'v' :: '.' :: rest => (process.lookup (String.ofList rest)).map .str
  | _ =>
    if name == "sys.os" then some (.str "linux")
    else if name == "sys.arch" then some (.str "x86_64")
    else if name == "sys.family" then some (.str "unix")
    else none

/-- A fact of a place or of the run. -/
def lookupBuiltin (started : Moment) (name : String) (site : Site) : Option Value :=
  if name == "__FILE__" then some (.str site.file.text)
  else if name == "__FILENAME__" then some (.str (site.file.fileName.getD ""))
  else if name == "__DIR__" then some (.str ((site.file.parent.map Path.text).getD ""))
  else if name == "__LINE__" then some (.int (Int64.ofNat (site.line + 1)))
  else if name == "__DATE__" then some (.str started.dateText)
  else if name == "__TIME__" then some (.str started.timeText)
  else if name == "__TIMESTAMP__" then some (.str started.stampText)
  else if name == "cpre.version" then some (.str "0.1.0")
  else none

def lookup (layer : Layer) (name : String) (site : Site) : Option Value :=
  match layer with
  | store _ vars => vars.get? name
  | frozen _ vars => vars.get? name
  | system process => lookupSystem process name
  | builtin started => lookupBuiltin started name site

/-- The layer with a variable set, if it takes writes. -/
def assign (layer : Layer) (name : String) (v : Value) : Except EvalError Layer :=
  match layer with
  | store label vars => .ok (store label (vars.set name v))
  | _ => .error (.readOnly layer.name name)

/-- The value that a layer kept for a name, and the layer without it, if it takes writes. -/
def remove (layer : Layer) (name : String) : Except EvalError (Option Value × Layer) :=
  match layer with
  | store label vars => .ok (vars.get? name, store label (vars.erase name))
  | _ => .error (.readOnly layer.name name)

end Layer

/-- A chain of layers, and whether an unknown name is false. -/
structure Environment where
  layers : List Layer
  unknownAsFalse : Bool

namespace Environment

/-- The chain for a source file: its own variables, the globals, the properties, the system
and the place. -/
def forFile (globals properties : Variables) (process : List (String × String))
    (started : Moment) (unknownAsFalse : Bool) : Environment :=
  ⟨[.store "local" [], .frozen "global" globals, .frozen "property" properties, .system process,
    .builtin started], unknownAsFalse⟩

/-- The chain for definition files, in which the globals take writes. -/
def forGlobals (globals properties : Variables) (process : List (String × String))
    (started : Moment) (unknownAsFalse : Bool) : Environment :=
  ⟨[.store "global" globals, .frozen "property" properties, .system process, .builtin started],
    unknownAsFalse⟩

/-- The value of the first layer that knows a name. -/
def lookup (env : Environment) (name : String) (site : Site) : Option Value :=
  env.layers.findSome? (·.lookup name site)

def isDefined (env : Environment) (name : String) (site : Site) : Bool :=
  (env.lookup name site).isSome

/-- The value of a name, under the rule for unknown ones. -/
def resolve (env : Environment) (name : String) (site : Site) : Except EvalError Value :=
  match env.lookup name site with
  | some v => .ok v
  | none => if env.unknownAsFalse then .ok (.bool false) else .error (.unknownVariable name)

/-- The error for a write that no layer takes: it names the first layer. -/
def notWritable (env : Environment) (name : String) : EvalError :=
  .readOnly ((env.layers.head?.map Layer.name).getD "none") name

/-- The first layer that takes writes, with those before and after it. -/
def splitWritable : List Layer → Option (List Layer × Layer × List Layer)
  | [] => none
  | layer :: rest =>
    if layer.isWritable then some ([], layer, rest)
    else (splitWritable rest).map fun (before, found, after) => (layer :: before, found, after)

/-- The environment with a variable set in its first writable layer. -/
def assign (env : Environment) (name : String) (v : Value) : Except EvalError Environment :=
  match splitWritable env.layers with
  | none => .error (env.notWritable name)
  | some (before, found, after) =>
    (found.assign name v).map fun layer => { env with layers := before ++ layer :: after }

/-- The value that the first writable layer kept for a name, and the environment without it. -/
def remove (env : Environment) (name : String) :
    Except EvalError (Option Value × Environment) :=
  match splitWritable env.layers with
  | none => .error (env.notWritable name)
  | some (before, found, after) =>
    (found.remove name).map fun (old, layer) =>
      (old, { env with layers := before ++ layer :: after })

def writableVariables (env : Environment) : Variables :=
  match splitWritable env.layers with
  | none => []
  | some (_, found, _) => found.variables?.getD []

end Environment

end Preprocessor
