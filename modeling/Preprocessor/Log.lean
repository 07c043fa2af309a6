/-
Log entries, and how they are written.

There are four levels, from what helps to find an error to an error itself.  A log keeps every
entry; which of them are shown is decided when it is written, by the least level that is asked for.
-/

namespace Preprocessor

inductive Level where
  | debug
  | info
  | warning
  | error
deriving DecidableEq

namespace Level

def name : Level → String
  | debug => "debug"
  | info => "info"
  | warning => "warning"
  | error => "error"

def rank : Level → Nat
  | debug => 0
  | info => 1
  | warning => 2
  | error => 3

/-- Whether a level matters at least as much as another. -/
def reaches (level least : Level) : Bool :=
  least.rank ≤ level.rank

end Level

/-- A message and its level. -/
structure LogEntry where
  level : Level
  message : String
deriving DecidableEq

/-- Entries in the order they were made. -/
abbrev Log := Array LogEntry

def LogEntry.fileLine (e : LogEntry) : String :=
  "[" ++ e.level.name ++ "] " ++ e.message ++ "\n"

/-- An entry as shown on a console, where only what is wrong carries its level. -/
def LogEntry.consoleLine (e : LogEntry) : String :=
  match e.level with
  | .debug | .info => e.message ++ "\n"
  | .warning | .error => e.level.name ++ ": " ++ e.message ++ "\n"

namespace Log

/-- The text of the entries that matter at least so much, each as a line. -/
def render (line : LogEntry → String) (least : Level) (log : Log) : String :=
  String.join ((log.toList.filter (·.level.reaches least)).map line)

/-- The messages of exactly one level. -/
def messages (log : Log) (level : Level) : List String :=
  (log.toList.filter (·.level == level)).map LogEntry.message

end Log

end Preprocessor
