/-
What became of the files of a run.

A file has one record, under the status in which it ended.  Counts are kept beside the records and
go up with each of them.  A run is a success if no file is counted as failed and no diagnostic was
kept, which comes to the same thing for the summaries that a session makes.
-/
import Preprocessor.Calendar
import Preprocessor.Json
import Preprocessor.Path
import Preprocessor.Text.Encoding

namespace Preprocessor

inductive FileStatus where
  | pending
  | written
  /-- The destination had the output already. -/
  | unchanged
  /-- The file was processed and nothing written. -/
  | dryRun
  /-- The file excluded itself. -/
  | excluded
  | failed
deriving DecidableEq

def FileStatus.name : FileStatus → String
  | pending => "pending"
  | written => "written"
  | unchanged => "unchanged"
  | dryRun => "dry-run"
  | excluded => "excluded"
  | failed => "failed"

structure FileRecord where
  source : Path
  /-- Its place below its source root. -/
  relative : Path
  /-- Where its output goes. -/
  destination : Path
  encoding : Encoding
  status : FileStatus

/-- How many files there are of each status, and of all but the pending ones. -/
structure Counts where
  processed : Nat := 0
  written : Nat := 0
  unchanged : Nat := 0
  dryRun : Nat := 0
  excluded : Nat := 0
  failed : Nat := 0
deriving DecidableEq

def Counts.add (c : Counts) : FileStatus → Counts
  | .pending => c
  | .written => { c with processed := c.processed + 1, written := c.written + 1 }
  | .unchanged => { c with processed := c.processed + 1, unchanged := c.unchanged + 1 }
  | .dryRun => { c with processed := c.processed + 1, dryRun := c.dryRun + 1 }
  | .excluded => { c with processed := c.processed + 1, excluded := c.excluded + 1 }
  | .failed => { c with processed := c.processed + 1, failed := c.failed + 1 }

/-- A run: when it was, its files, and the diagnostics of those that failed. -/
structure Summary where
  started : Moment
  finished : Option Moment := none
  counts : Counts := {}
  records : Array FileRecord := #[]
  errors : Array String := #[]
  /-- Whether the run was stopped early. -/
  cancelled : Bool := false

namespace Summary

def push (s : Summary) (r : FileRecord) : Summary :=
  { s with counts := s.counts.add r.status, records := s.records.push r }

/-- Whether no file failed. -/
def isSuccess (s : Summary) : Bool :=
  s.counts.failed == 0 && s.errors.isEmpty

def recordsWith (s : Summary) (status : FileStatus) : List FileRecord :=
  s.records.toList.filter (·.status == status)

def countsJson (c : Counts) : Json :=
  .object [("processed", .nat c.processed), ("written", .nat c.written),
    ("unchanged", .nat c.unchanged), ("dry_run", .nat c.dryRun), ("excluded", .nat c.excluded),
    ("failed", .nat c.failed)]

def recordJson (r : FileRecord) : Json :=
  .object [("source", .str r.source.text), ("relative", .str r.relative.text),
    ("destination", .str r.destination.text), ("encoding", .str r.encoding.name),
    ("status", .str r.status.name)]

def toJson (s : Summary) : Json :=
  .object [("started", .str s.started.zuluText),
    ("finished", s.finished.elim .null fun t => .str t.zuluText),
    ("counts", countsJson s.counts), ("records", .array (s.records.toList.map recordJson)),
    ("errors", .array (s.errors.toList.map Json.str)), ("cancelled", .bool s.cancelled)]

end Summary

end Preprocessor
