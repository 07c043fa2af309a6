/-
Arguments of a command.

An argument is an option or a word.  An option has a long name after two dashes and may have
a short one after a single dash; short ones may share a dash.  A flag stands alone, any other
option takes a value, which follows an equals sign, or for a short one its name, or is the
next argument.  After two dashes alone all arguments are words.
-/
import Preprocessor.Text.Basic

namespace Preprocessor

inductive Refusal where
  /-- They are wrong. -/
  | misuse
  /-- They ask for help instead. -/
  | help
deriving DecidableEq

/-- What an option does to what has been read, unless that refuses it. -/
inductive OptionKind (α : Type) where
  | flag (set : α → Option α)
  | value (set : α → String → Option α)

structure CommandOption (α : Type) where
  long : String
  short : Option Char := none
  kind : OptionKind α

/-- What the arguments of a command may be. -/
structure Usage (α : Type) where
  options : List (CommandOption α)
  /-- What a word does to what has been read, unless that refuses it. -/
  word : α → String → Option α

inductive Argument where
  | word (s : String)
  | long (name : String) (value : Option String)
  | shorts (letters : List Char)
  /-- Two dashes alone. -/
  | divider
deriving DecidableEq

def Argument.ofString (s : String) : Argument :=
  match s.toList with
  | ['-', '-'] => .divider
  | '-' :: '-' :: rest =>
    match Text.cut ['='] rest with
    | some (name, value) => .long (String.ofList name) (some (String.ofList value))
    | none => .long (String.ofList rest) none
  | '-' :: c :: rest => .shorts (c :: rest)
  | _ => .word s

namespace Usage

variable {α : Type}

def orMisuse {β : Type} (x : Option β) : Except Refusal β :=
  match x with
  | some b => .ok b
  | none => .error .misuse

def long? (u : Usage α) (name : String) : Except Refusal (OptionKind α) :=
  if name == "help" then .error .help
  else orMisuse ((u.options.find? (·.long == name)).map CommandOption.kind)

def short? (u : Usage α) (letter : Char) : Except Refusal (OptionKind α) :=
  if letter == 'h' then .error .help
  else orMisuse ((u.options.find? (·.short == some letter)).map CommandOption.kind)

/-- What has been read, and what to do with the next argument if it is a value. -/
abbrev Reading (α : Type) := α × Option (α → String → Option α)

def readLong (u : Usage α) (name : String) (value : Option String) (a : α) :
    Except Refusal (Reading α) :=
  match u.long? name, value with
  | .error .help, some _ => .error .misuse
  | .error r, _ => .error r
  | .ok (.flag _), some _ => .error .misuse
  | .ok (.flag set), none => do return (← orMisuse (set a), none)
  | .ok (.value set), some v => do return (← orMisuse (set a v), none)
  | .ok (.value set), none => .ok (a, some set)

/-- A value that follows a letter, with or without an equals sign. -/
def attached : List Char → String
  | '=' :: rest => String.ofList rest
  | letters => String.ofList letters

/-- Reads options that share a dash. -/
def readShorts (u : Usage α) : List Char → α → Except Refusal (Reading α)
  | [], a => .ok (a, none)
  | letter :: rest, a => do
    match ← u.short? letter with
    | .flag set => u.readShorts rest (← orMisuse (set a))
    | .value set =>
      if rest.isEmpty then return (a, some set)
      else return (← orMisuse (set a (attached rest)), none)

/-- Reads an argument that is no value, divider or word. -/
def readOption (u : Usage α) (argument : Argument) (a : α) : Except Refusal (Reading α) :=
  match argument with
  | .long name value => u.readLong name value a
  | .shorts letters => u.readShorts letters a
  | _ => .error .misuse

/-- Reads arguments.  A value that is an argument of its own must not look like an option. -/
def read (u : Usage α) : List String → α → Except Refusal α
  | [], a => .ok a
  | s :: rest, a =>
    match Argument.ofString s with
    | .word s => do u.read rest (← orMisuse (u.word a s))
    | .divider => orMisuse (rest.foldlM u.word a)
    | argument => do
      match ← u.readOption argument a with
      | (a, none) => u.read rest a
      | (a, some set) =>
        match rest with
        | [] => .error .misuse
        | v :: rest =>
          match Argument.ofString v with
          | .word v => u.read rest (← orMisuse (set a v))
          | _ => .error .misuse

end Usage

end Preprocessor
