/-
Running a command on a file tree.

A run gives an exit code, what it writes to the two output streams, and the tree after it.
-/
import Preprocessor.Command.Basic
import Preprocessor.Command.Failure
import Preprocessor.Expr.Eval
import Preprocessor.LogFile
import Preprocessor.Session
import Preprocessor.Text.Heads

namespace Preprocessor

structure Surroundings where
  tree : FileTree
  /-- The variables of the process. -/
  process : List (String × String) := []
  started : Moment
  finished : Moment

structure Effect where
  exit : Nat := 0
  stdout : String := ""
  stderr : String := ""
  tree : FileTree

namespace Command

def versionText : String := "cpre 0.1.0\n"

def usageText : String :=
  "Conditional-compilation preprocessor driven by directives in // comments\n\n"
    ++ "Usage: cpre <COMMAND>\n\nCommands:\n"
    ++ "  process  Preprocess source trees into a destination directory\n"
    ++ "  eval     Evaluate an expression and print its value\n"
    ++ "  strip    Remove comments from a file and print the result\n"
    ++ "  help     Print this message or the help of the given subcommand(s)\n\n"
    ++ "Options:\n  -h, --help     Print help\n  -V, --version  Print version\n"

/-- Where the log of a run goes. -/
inductive LogTarget where
  | console
  | file (loc : Location)

/-- What a command has done so far. -/
structure Progress where
  tree : FileTree
  stderr : String := ""
  target : LogTarget := .console
  least : Level := .info

/-- A computation of a command; what was done outlives a failure. -/
abbrev CommandM := ExceptT Failure (StateM Progress)

/-- A result whose failure is part of another. -/
def within {α ε : Type} (message : String) (causes : ε → List String) (r : Except ε α) :
    CommandM α :=
  match r with
  | .ok a => pure a
  | .error e => throw ⟨message, causes e⟩

def writeLog (log : Log) : CommandM Unit :=
  modify fun p =>
    match p.target with
    | .console => { p with stderr := p.stderr ++ log.render LogEntry.consoleLine p.least }
    | .file loc => { p with tree := p.tree.appendLog loc p.least log }

def inform (message : String) : CommandM Unit :=
  writeLog #[⟨.info, message⟩]

def loadFailure (path : Path) : Config.LoadError → Failure
  | .unreadable e => ⟨"Cannot read config " ++ path.text, [e.message]⟩
  | .notText => ⟨"Cannot read config " ++ path.text, ["stream did not contain valid UTF-8"]⟩
  | .invalid e => ⟨"Invalid config " ++ path.text, [e.message]⟩

/-- The configuration in a file, or in the default one if it is there. -/
def loadConfig (path : Option Path) : CommandM Config := do
  let t := (← get).tree
  let load (p : Path) : CommandM Config :=
    match Config.load t p with
    | .ok c => pure c
    | .error e => throw (loadFailure p e)
  match path with
  | some p => load p
  | none => if t.isFile Config.defaultPath then load Config.defaultPath else pure {}

def openLog (path : Option Path) : CommandM Unit := do
  match path with
  | none => pure ()
  | some p =>
    let (loc, t) ← within ("Cannot open log file " ++ p.text) (fun e => [OsError.message e])
      ((← get).tree.openLog p)
    modify fun progress => { progress with tree := t, target := .file loc }

/-- Whether the log still goes to the file that was opened: that file has not been removed or
replaced since. -/
def keepsLog (before after : FileTree) : LogTarget → Bool
  | .console => true
  | .file loc => before.entry? loc == after.entry? loc

def runSession (here : Surroundings) (session : Session Unit) (sources : List SourceFile) :
    CommandM Summary := do
  let before := (← get).tree
  let (r, s) := (session.run here.started here.finished sources).run { tree := before, host := () }
  modify fun progress => { progress with tree := s.tree }
  if keepsLog before s.tree (← get).target then writeLog s.log
  within "Preprocessing failed" (fun d => [Diagnostic.text d]) r

def writeReport (summary : Summary) : Option Path → CommandM Unit
  | none => pure ()
  | some p => do
    let t ← within ("Cannot write report " ++ p.text) (fun e => [OsError.message e])
      ((← get).tree.write p summary.toJson.text.toUTF8.toList)
    modify fun progress => { progress with tree := t }

/-- Processes source trees. -/
def runProcess (here : Surroundings) (a : ProcessArguments) : CommandM Unit := do
  let config := a.amend (← loadConfig a.config)
  modify fun progress => { progress with least := a.level }
  openLog a.logFile
  inform "Collecting source files..."
  let sources ← within "Failed to collect source files" SelectionError.messages
    (Session.sources config (← get).tree)
  inform ("Found " ++ toString sources.length ++ " file(s) in "
    ++ ", ".intercalate (config.sources.map Path.text))
  let session : Session Unit :=
    { config := config, host := .declining Unit, definitions := .ofList a.definitions,
      properties := .ofList a.properties, process := here.process }
  let summary ← runSession here session sources
  writeReport summary a.report
  if !summary.isSuccess then
    throw ⟨toString summary.counts.failed ++ " of " ++ toString summary.counts.processed
      ++ " file(s) failed", []⟩

def runEval (here : Surroundings) (expression : String) (definitions : List (String × Value))
    (unknownAsFalse : Bool) : Except Failure String :=
  let env := Environment.forFile (.ofList definitions) [] here.process here.started unknownAsFalse
  let site : Site := ⟨⟨"<command line>"⟩, 0⟩
  match ((evaluate (.declining Unit) env site expression).run ()).1 with
  | .ok v => .ok (v.text ++ "\n")
  | .error e => .error ⟨"Cannot evaluate '" ++ Text.shortened expression 60 ++ "'", [e.message]⟩

def runStrip (t : FileTree) (file : Path) (strictness : Text.Strictness) (encoding : Encoding) :
    Except Failure String :=
  match t.read file with
  | .error e => .error ⟨"Cannot read " ++ file.text, [e.message]⟩
  | .ok bytes =>
    match encoding.decode bytes with
    | .error e => .error ⟨"Cannot decode " ++ file.text, [e.message]⟩
    | .ok decoded =>
      match Text.stripComments decoded.text strictness with
      | .error e => .error ⟨"Cannot strip comments from " ++ file.text, [e.message]⟩
      | .ok text => .ok text

def printing (t : FileTree) : Except Failure String → Effect
  | .ok text => { stdout := text, tree := t }
  | .error f => { exit := 1, stderr := f.text, tree := t }

def run (here : Surroundings) : Command → Effect
  | .version => { stdout := versionText, tree := here.tree }
  | .eval expression definitions unknownAsFalse =>
    printing here.tree (runEval here expression definitions unknownAsFalse)
  | .strip file strictness encoding =>
    printing here.tree (runStrip here.tree file strictness encoding)
  | .process a =>
    match (runProcess here a).run { tree := here.tree } with
    | (.ok (), progress) => { stderr := progress.stderr, tree := progress.tree }
    | (.error f, progress) =>
      { exit := 1, stderr := progress.stderr ++ f.text, tree := progress.tree }

def runArguments (here : Surroundings) (args : List String) : Effect :=
  match read args with
  | .ok command => run here command
  | .error .help => { stdout := usageText, tree := here.tree }
  | .error .misuse => { exit := 2, stderr := usageText, tree := here.tree }

def argumentPaths (args : List String) : List Path :=
  match read args with
  | .ok (.process a) =>
    a.config.toList ++ a.sources ++ a.destination.toList ++ a.globalFiles ++ a.includePaths
      ++ a.report.toList ++ a.logFile.toList
  | .ok (.strip file _ _) => [file]
  | _ => []

def configuredPaths (t : FileTree) (args : List String) : List Path :=
  match read args with
  | .ok (.process a) =>
    match Config.load t (a.config.getD Config.defaultPath) with
    | .ok c => c.sources ++ c.destination :: (c.globalFiles ++ c.includePaths)
    | .error _ => []
  | _ => []

end Command

end Preprocessor
