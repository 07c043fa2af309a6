/-
The commands, and the arguments they take.

There are three commands beside the request for help and the version: to process source trees, to
evaluate an expression and to remove comments from a file.  No option may be repeated, except for
one that adds to a list.  What is given on the command line changes the configuration that was read
before it.
-/
import Preprocessor.Command.Arguments
import Preprocessor.Config
import Preprocessor.Log
import Preprocessor.Text.Encoding
import Preprocessor.Value.Literal

namespace Preprocessor

/-- What processing source trees is told on the command line. -/
structure ProcessArguments where
  config : Option Path := none
  sources : List Path := []
  destination : Option Path := none
  definitions : List (String × Value) := []
  properties : List (String × Value) := []
  globalFiles : List Path := []
  includePaths : List Path := []
  sourceEncoding : Option Encoding := none
  targetEncoding : Option Encoding := none
  removeComments : Bool := false
  strictComments : Bool := false
  keepLines : Bool := false
  clear : Bool := false
  dryRun : Bool := false
  skipUnchanged : Bool := false
  unknownAsFalse : Bool := false
  bestEffort : Bool := false
  report : Option Path := none
  logFile : Option Path := none
  verbose : Bool := false
  quiet : Bool := false

/-- What evaluating an expression is told on the command line. -/
structure EvalArguments where
  expression : Option String := none
  definitions : List (String × Value) := []
  unknownAsFalse : Bool := false

structure StripArguments where
  file : Option Path := none
  strict : Bool := false
  encoding : Option Encoding := none

inductive Command where
  | version
  | process (args : ProcessArguments)
  | eval (expression : String) (definitions : List (String × Value)) (unknownAsFalse : Bool)
  | strip (file : Path) (strictness : Text.Strictness) (encoding : Encoding)

namespace Command

/-- A value for a field that may be given once. -/
def once {α β : Type} (old : Option α) (new : Option α) (store : α → β) : Option β :=
  if old.isSome then none else new.map store

/-- A flag that may be given once. -/
def setOnce {β : Type} (old : Bool) (new : β) : Option β :=
  if old then none else some new

/-- A path on the command line is not empty. -/
def path? (s : String) : Option Path :=
  if s.isEmpty then none else some ⟨s⟩

def definition? (s : String) : Option (String × Value) :=
  (readDefinition s).toOption

def encoding? (s : String) : Option Encoding :=
  (Encoding.ofName s).toOption

def processValues : List (CommandOption ProcessArguments) :=
  [⟨"config", none, .value fun a s => once a.config (path? s) fun x => { a with config := x }⟩,
    ⟨"source", none, .value fun a s =>
      (path? s).map fun x => { a with sources := a.sources ++ [x] }⟩,
    ⟨"destination", none, .value fun a s =>
      once a.destination (path? s) fun x => { a with destination := x }⟩,
    ⟨"define", some 'D', .value fun a s =>
      (definition? s).map fun x => { a with definitions := a.definitions ++ [x] }⟩,
    ⟨"property", none, .value fun a s =>
      (definition? s).map fun x => { a with properties := a.properties ++ [x] }⟩,
    ⟨"global-file", none, .value fun a s =>
      (path? s).map fun x => { a with globalFiles := a.globalFiles ++ [x] }⟩,
    ⟨"include-path", none, .value fun a s =>
      (path? s).map fun x => { a with includePaths := a.includePaths ++ [x] }⟩,
    ⟨"source-encoding", none, .value fun a s =>
      once a.sourceEncoding (encoding? s) fun x => { a with sourceEncoding := x }⟩,
    ⟨"target-encoding", none, .value fun a s =>
      once a.targetEncoding (encoding? s) fun x => { a with targetEncoding := x }⟩,
    ⟨"report", none, .value fun a s => once a.report (path? s) fun x => { a with report := x }⟩,
    ⟨"log-file", none, .value fun a s =>
      once a.logFile (path? s) fun x => { a with logFile := x }⟩]

def processFlags : List (CommandOption ProcessArguments) :=
  [⟨"remove-comments", none, .flag fun a =>
      setOnce a.removeComments { a with removeComments := true }⟩,
    ⟨"strict-comments", none, .flag fun a =>
      setOnce a.strictComments { a with strictComments := true }⟩,
    ⟨"keep-lines", none, .flag fun a => setOnce a.keepLines { a with keepLines := true }⟩,
    ⟨"clear", none, .flag fun a => setOnce a.clear { a with clear := true }⟩,
    ⟨"dry-run", none, .flag fun a => setOnce a.dryRun { a with dryRun := true }⟩,
    ⟨"skip-unchanged", none, .flag fun a =>
      setOnce a.skipUnchanged { a with skipUnchanged := true }⟩,
    ⟨"unknown-as-false", none, .flag fun a =>
      setOnce a.unknownAsFalse { a with unknownAsFalse := true }⟩,
    ⟨"best-effort", none, .flag fun a => setOnce a.bestEffort { a with bestEffort := true }⟩,
    ⟨"verbose", some 'v', .flag fun a => setOnce a.verbose { a with verbose := true }⟩,
    ⟨"quiet", some 'q', .flag fun a => setOnce a.quiet { a with quiet := true }⟩]

def processUsage : Usage ProcessArguments where
  options := processValues ++ processFlags
  word _ _ := none

def evalUsage : Usage EvalArguments where
  options :=
    [⟨"define", some 'D', .value fun a s =>
        (definition? s).map fun x => { a with definitions := a.definitions ++ [x] }⟩,
      ⟨"unknown-as-false", none, .flag fun a =>
        setOnce a.unknownAsFalse { a with unknownAsFalse := true }⟩]
  word a s := once a.expression (some s) fun x => { a with expression := x }

def stripUsage : Usage StripArguments where
  options :=
    [⟨"strict", none, .flag fun a => setOnce a.strict { a with strict := true }⟩,
      ⟨"encoding", none, .value fun a s =>
        once a.encoding (encoding? s) fun x => { a with encoding := x }⟩]
  word a s := once a.file (path? s) fun x => { a with file := x }

/-- The arguments of processing; it cannot be verbose and quiet. -/
def readProcess (args : List String) : Except Refusal Command := do
  let a ← processUsage.read args {}
  if a.verbose && a.quiet then throw .misuse
  return .process a

/-- The arguments of evaluating, which needs an expression. -/
def readEval (args : List String) : Except Refusal Command := do
  let a ← evalUsage.read args {}
  let expression ← Usage.orMisuse a.expression
  return .eval expression a.definitions a.unknownAsFalse

/-- The arguments of removing comments, which needs a file. -/
def readStrip (args : List String) : Except Refusal Command := do
  let a ← stripUsage.read args {}
  let file ← Usage.orMisuse a.file
  return .strip file (if a.strict then .strict else .lenient) (a.encoding.getD .utf8)

def names : List String :=
  ["process", "eval", "strip"]

/-- A request for help on all commands or on one. -/
def readHelp : List String → Refusal
  | [] => .help
  | [name] => if name == "help" || names.contains name then .help else .misuse
  | _ => .misuse

def read : List String → Except Refusal Command
  | [] => .error .misuse
  | first :: rest =>
    if first == "process" then readProcess rest
    else if first == "eval" then readEval rest
    else if first == "strip" then readStrip rest
    else if first == "help" then .error (readHelp rest)
    else
      match Argument.ofString first with
      | .long "version" none => .ok .version
      | .long "help" none => .error .help
      | .shorts ('V' :: _) => .ok .version
      | .shorts ('h' :: _) => .error .help
      | _ => .error .misuse

end Command

/-- The least level of entries that are shown. -/
def ProcessArguments.level (a : ProcessArguments) : Level :=
  if a.verbose then .debug else if a.quiet then .warning else .info

/-- A configuration changed as the command line says. -/
def ProcessArguments.amend (a : ProcessArguments) (c : Config) : Config :=
  { c with
    sources := if a.sources.isEmpty then c.sources else a.sources
    destination := a.destination.getD c.destination
    globalFiles := c.globalFiles ++ a.globalFiles
    includePaths := c.includePaths ++ a.includePaths
    sourceEncoding := a.sourceEncoding.getD c.sourceEncoding
    targetEncoding := a.targetEncoding.getD c.targetEncoding
    comments := if a.removeComments then .remove else c.comments
    strictComments := c.strictComments || a.strictComments
    keepLines := c.keepLines || a.keepLines
    clearDestination := c.clearDestination || a.clear
    dryRun := c.dryRun || a.dryRun
    skipUnchanged := c.skipUnchanged || a.skipUnchanged
    unknownAsFalse := c.unknownAsFalse || a.unknownAsFalse
    errorPolicy := if a.bestEffort then .bestEffort else c.errorPolicy }

end Preprocessor
