/-
Sessions: definition files first, then every source file.

A session works on a file tree and a host, and keeps a log.  What fails is told to whoever
listens before the run goes on or ends.  The next run starts from what the last one left.

Before each file it is asked whether the run is to end.  The host may want it to end, which its
state tells, and so may anyone else, by a flag that is given here for each position in the list of
files.  The two are independent of each other.  Definition files are read once; each source file
then starts from the variables that they left, with no trace of the source files before it but what
these put into the tree and did to the host.
-/
import Preprocessor.Config
import Preprocessor.Source.Globals
import Preprocessor.Source.Selection
import Preprocessor.Summary

namespace Preprocessor

structure Session (σ : Type) where
  config : Config
  host : Host σ
  /-- Definitions that override the global variables of the configuration. -/
  definitions : Variables := []
  /-- Properties that override those of the configuration. -/
  properties : Variables := []
  /-- The variables of the process. -/
  process : List (String × String) := []
  disk : Disk := {}
  /-- Whether the flag that stops a run is found raised before the file with an index.  Anyone can
  raise it at any time, so this is not for the session to say. -/
  raised : Nat → Bool := fun _ => false

structure SessionState (σ : Type) where
  tree : FileTree
  host : σ
  log : Log := #[]
  /-- The diagnostics that were told to listeners. -/
  told : Array Diagnostic := #[]

/-- A computation on what a session works on, which outlives a failure. -/
abbrev SessionM (σ : Type) := ExceptT Diagnostic (StateM (SessionState σ))

/-- The variables that are fixed once the definition files are read. -/
structure Fixed where
  globals : Variables
  properties : Variables

namespace SessionM

variable {σ α : Type}

def note (level : Level) (message : String) : SessionM σ Unit :=
  modify fun s => { s with log := s.log.push ⟨level, message⟩ }

def tell (d : Diagnostic) : SessionM σ Unit :=
  modify fun s => { s with told := s.told.push d }

/-- The computation, whose failure is told to listeners. -/
def telling (x : SessionM σ α) : SessionM σ α :=
  tryCatch x fun d => do
    tell d
    throw d

/-- A result whose failure has neither a line nor a file. -/
def ofFault (r : Except Fault α) : SessionM σ α :=
  match r with
  | .ok a => pure a
  | .error fault => throw { fault := fault }

/-- Runs an engine with an environment on the session's host and log. -/
def withEngine (env : Environment) (x : RunM σ α) :
    StateM (SessionState σ) (Except Diagnostic α × Engine σ) :=
  fun s =>
    let (r, e) := x.run { env := env, host := s.host, log := s.log }
    ((r, e), { s with host := e.host, log := e.log })

end SessionM

namespace Session

open SessionM

variable {σ : Type}

/-- A source root that clearing the destination would remove. -/
def endangeredRoot? (c : Config) (t : FileTree) : Option Path :=
  c.sources.find? fun root =>
    (Path.componentsAfter (t.canonical c.destination) (t.canonical root)).isSome

/-- Removes all that is in the destination, unless a source root is there. -/
def clearDestination (c : Config) : SessionM σ Unit := do
  let t := (← get).tree
  if !t.isThere c.destination then return
  match endangeredRoot? c t with
  | some root => ofFault (.error (.file (.clearsSource root) c.destination))
  | none =>
    note .info ("Clearing " ++ c.destination.text)
    match t.clear c.destination with
    | .error e => ofFault (.error (.file (.listDestination e) c.destination))
    | .ok t => modify fun s => { s with tree := t }

def loadGlobals (s : Session σ) (properties : Variables) (started : Moment) :
    SessionM σ Variables := do
  let initial ← ofFault s.config.globalValues
  let env := Environment.forGlobals (initial.override s.definitions) properties s.process started
    s.config.unknownAsFalse
  let files :=
    GlobalFile.loadAll s.host (← get).tree s.config.sourceEncoding s.config.globalFiles
  let (r, e) ← withEngine env files
  match r with
  | .error d => throw d
  | .ok () => return e.env.writableVariables

/-- What comes before the first source file. -/
def prepare (s : Session σ) (started : Moment) : SessionM σ Fixed := do
  if s.config.clearDestination && !s.config.dryRun then clearDestination s.config
  let properties ← ofFault s.config.propertyValues
  let properties := properties.override s.properties
  let globals ← s.loadGlobals properties started
  return ⟨globals, properties⟩

/-- The destination of a file that gave its output a name: an absolute name is taken as it is,
another replaces the file name. -/
def renamed (destination : Path) (name : String) : Path :=
  if Path.isAbsolute ⟨name⟩ then ⟨name⟩ else destination.withFileName name

def statusOf : Commit → FileStatus
  | .written => .written
  | .unchanged => .unchanged
  | .dryRun => .dryRun

def commitOutput (c : Config) (disk : Disk) (source : SourceFile) (destination : Path)
    (text : String) (bom : Bool) (t : FileTree) : Except Diagnostic FileStatus × FileTree :=
  match c.targetEncoding.encode text (bom && c.targetEncoding == .utf8) with
  | .error e =>
    (.error (Diagnostic.withFrames ⟨.file (.encode e) destination, none, []⟩ [⟨source.path, 0⟩]), t)
  | .ok bytes =>
    match t.commit disk c.commitOptions destination bytes with
    | (.error fault, t) => (.error { fault := fault }, t)
    | (.ok commit, t) => (.ok (statusOf commit), t)

def processFile (s : Session σ) (fixed : Fixed) (started : Moment) (source : SourceFile) :
    StateM (SessionState σ) (Path × Except Diagnostic FileStatus) := do
  let destination := s.config.destination.join source.relative
  let env := Environment.forFile fixed.globals fixed.properties s.process started
    s.config.unknownAsFalse
  let run := Source.preprocess s.host (← get).tree s.config.options source.path
  let (r, _) ← withEngine env run
  match r with
  | .error d => return (destination, .error d)
  | .ok .excluded => return (destination, .ok .excluded)
  | .ok (.text text bom outname) =>
    let destination := outname.elim destination (renamed destination)
    let (r, t) := commitOutput s.config s.disk source destination text bom (← get).tree
    modify fun state => { state with tree := t }
    return (destination, r)

def recordOf (c : Config) (source : SourceFile) (destination : Path) (status : FileStatus) :
    FileRecord :=
  ⟨source.path, source.relative, destination, c.targetEncoding, status⟩

/-- Whether the run stops before the file with an index: the flag is raised, or the host asks for
it. -/
def stops (s : Session σ) (index : Nat) (host : σ) : Bool :=
  s.raised index || s.host.wantsStop host

/-- Processes files in order, as long as nobody asks to stop. -/
def processFiles (s : Session σ) (fixed : Fixed) (started : Moment) :
    (index : Nat) → List SourceFile → Summary → SessionM σ Summary
  | _, [], summary => return summary
  | index, source :: rest, summary => do
    if s.stops index (← get).host then
      note .warning "Preprocessing cancelled"
      return { summary with cancelled := true }
    note .debug ("Preprocessing " ++ source.relative.text)
    let (destination, r) ← s.processFile fixed started source
    match r with
    | .ok status =>
      note .info
        (source.relative.text ++ " -> " ++ destination.text ++ " (" ++ status.name ++ ")")
      s.processFiles fixed started (index + 1) rest
        (summary.push (recordOf s.config source destination status))
    | .error d =>
      tell d
      note .error d.text
      match s.config.errorPolicy with
      | .stopOnFirst => throw d
      | .bestEffort =>
        let summary := summary.push (recordOf s.config source destination .failed)
        s.processFiles fixed started (index + 1) rest
          { summary with errors := summary.errors.push d.text }

/-- The last entry of a run. -/
def closing (c : Counts) : String :=
  "Processed " ++ toString c.processed ++ " file(s): " ++ toString c.written ++ " written, "
    ++ toString c.unchanged ++ " unchanged, " ++ toString c.excluded ++ " excluded, "
    ++ toString c.failed ++ " failed"

def run (s : Session σ) (started finished : Moment) (sources : List SourceFile) :
    SessionM σ Summary := do
  let fixed ← telling (s.prepare started)
  note .debug ("Loaded " ++ toString fixed.globals.length ++ " global variable(s) and "
    ++ toString fixed.properties.length ++ " property value(s)")
  let summary ← s.processFiles fixed started 0 sources { started := started }
  note .info (closing summary.counts)
  return { summary with finished := some finished }

def sources (c : Config) (t : FileTree) : Except SelectionError (List SourceFile) :=
  SourceFile.collect t
    (.ofExtensions c.extensions c.excludeExtensions c.excludeDirs) c.sources

end Session

end Preprocessor
