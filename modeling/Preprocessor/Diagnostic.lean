/-
Diagnostics: what went wrong, in which line, and through which files it was reached.

A fault is the cause, with its kind and its message.  A diagnostic is the fault as reported:
the line is the first one recorded, and so is the trail of files.
-/
import Preprocessor.Eval.Error
import Preprocessor.FileTree.Error
import Preprocessor.Path
import Preprocessor.Text.Basic
import Preprocessor.Text.Comments
import Preprocessor.Text.Encoding

namespace Preprocessor

/-- A line of a file, counted from zero. -/
structure Position where
  path : Path
  line : Nat
deriving DecidableEq

/-- A position as `path:number`, the first line having number one. -/
def Position.text (p : Position) : String :=
  p.path.text ++ ":" ++ toString (p.line + 1)

inductive DiagnosticKind where
  | malformed
  | unbalanced
  | unknownVariable
  | typeMismatch
  | unknownFunction
  | includeNotFound
  | actionRejected
  | userError
  | io
deriving DecidableEq

def DiagnosticKind.name : DiagnosticKind → String
  | malformed => "syntax error"
  | unbalanced => "unbalanced directive"
  | unknownVariable => "unknown variable"
  | typeMismatch => "type mismatch"
  | unknownFunction => "unknown function"
  | includeNotFound => "include not found"
  | actionRejected => "action rejected"
  | userError => "user error"
  | io => "i/o failure"

def EvalError.kind : EvalError → DiagnosticKind
  | unknownVariable _ => .unknownVariable
  | typeMismatch _ _ => .typeMismatch
  | invalidArgument _ _ => .typeMismatch
  | unknownFunction _ _ => .unknownFunction
  | parse _ => .malformed
  | arithmetic _ => .malformed
  | readOnly _ _ => .malformed
  | host _ => .actionRejected

inductive FileFault where
  | read (e : OsError)
  | decode (e : EncodingError)
  | readGlobals (e : OsError)
  | decodeGlobals (e : EncodingError)
  | encode (e : EncodingError)
  | createDirectory (e : OsError)
  | createTemporary (e : OsError)
  | write (e : OsError)
  | replace (e : OsError)
  | listDestination (e : OsError)
  | clearsSource (root : Path)

def FileFault.message : FileFault → String
  | read e => "cannot read file (" ++ e.message ++ ")"
  | decode e => "cannot decode file (" ++ e.message ++ ")"
  | readGlobals e => "cannot read global file (" ++ e.message ++ ")"
  | decodeGlobals e => "cannot decode global file (" ++ e.message ++ ")"
  | encode e => "cannot encode output (" ++ e.message ++ ")"
  | createDirectory e => "cannot create directory (" ++ e.message ++ ")"
  | createTemporary e => "cannot create temporary file (" ++ e.message ++ ")"
  | write e => "cannot write (" ++ e.message ++ ")"
  | replace e => "cannot replace file (" ++ e.message ++ ")"
  | listDestination e => "cannot list destination (" ++ e.message ++ ")"
  | clearsSource root => "refusing to clear destination containing source root " ++ root.text

inductive Fault where
  -- the text of a directive
  | needsExpression (keyword : String)
  | needsName (keyword : String)
  | needsSingleName (keyword : String)
  | unexpectedText (keyword args : String)
  | expectedEquals (keyword name found : String)
  | missingValue (keyword name : String)
  | unterminatedMarker
  | unknownDirective (text : String)
  -- conditional blocks
  | elifWithoutIf
  | elifAfterElse
  | elseWithoutIf
  | duplicateElse
  | endifWithoutIf
  | unclosedIf (line : Nat)
  -- the execution of a directive
  | eval (e : EvalError)
  | notAString (keyword : String) (v : Value)
  | notACondition (v : Value)
  | globalOutside (name : String)
  | emptyOutname
  | user (text : String)
  | noActionHandler (arity : Nat)
  | actionRejected
  | includeNotFound (target : String)
  | recursiveInclude (path : Path)
  | notADefinition (line : String)
  | unterminatedComment (e : Text.UnterminatedComment)
  -- configuration
  | tableGlobal (name : String)
  | tableProperty (name : String)
  -- files
  | file (fault : FileFault) (path : Path)
  -- any other cause, by its kind and message
  | other (kind : DiagnosticKind) (text : String)

namespace Fault

def kind : Fault → DiagnosticKind
  | elifWithoutIf | elifAfterElse | elseWithoutIf | duplicateElse | endifWithoutIf
  | unclosedIf _ => .unbalanced
  | eval e => e.kind
  | notAString _ _ | notACondition _ => .typeMismatch
  | user _ => .userError
  | noActionHandler _ | actionRejected => .actionRejected
  | includeNotFound _ => .includeNotFound
  | file _ _ => .io
  | other kind _ => kind
  | _ => .malformed

def message : Fault → String
  | needsExpression keyword => "'" ++ keyword ++ "' requires an expression"
  | needsName keyword => "'" ++ keyword ++ "' requires a variable name"
  | needsSingleName keyword => "'" ++ keyword ++ "' requires a single variable name"
  | unexpectedText keyword args => "unexpected text after '" ++ keyword ++ "': " ++ args
  | expectedEquals keyword name found =>
    "expected '=' after '" ++ keyword ++ " " ++ name ++ "', found '" ++ found ++ "'"
  | missingValue keyword name => "missing value after '" ++ keyword ++ " " ++ name ++ " ='"
  | unterminatedMarker => "unterminated inline expression, expected '$*/'"
  | unknownDirective text => "unknown directive '" ++ text ++ "'"
  | elifWithoutIf => "'elif' without matching 'if'"
  | elifAfterElse => "'elif' after 'else'"
  | elseWithoutIf => "'else' without matching 'if'"
  | duplicateElse => "duplicate 'else'"
  | endifWithoutIf => "'endif' without matching 'if'"
  | unclosedIf line => "'if' opened at line " ++ toString (line + 1) ++ " is never closed"
  | eval e => e.message
  | notAString keyword v =>
    "'" ++ keyword ++ "' expects a string, found " ++ v.type.name ++ " '" ++ v.text ++ "'"
  | notACondition v => "condition must be bool, found " ++ v.type.name ++ " '" ++ v.text ++ "'"
  | globalOutside name =>
    "global variable '" ++ name ++ "' can only be defined in a global definition file"
  | emptyOutname => "'outname' requires a non-empty name"
  | user text => text
  | noActionHandler arity => "no action handler accepts " ++ toString arity ++ " argument(s)"
  | actionRejected => "action rejected by extension"
  | includeNotFound target => "cannot find included file '" ++ target ++ "'"
  | recursiveInclude path => "recursive include of '" ++ path.text ++ "'"
  | notADefinition line =>
    "only 'global', 'define' and 'undef' are allowed in a global definition file, found '"
      ++ Text.trimmed line ++ "'"
  | unterminatedComment e => e.message ++ " in processed output"
  | tableGlobal name => "global '" ++ name ++ "' must be a scalar or an array, not a table"
  | tableProperty name => "property '" ++ name ++ "' must be a scalar or an array, not a table"
  | file fault path => fault.message ++ ": " ++ path.text
  | other _ text => text

end Fault

/-- A fault as reported: with the line it is in and the files that led there, the innermost
first. -/
structure Diagnostic where
  fault : Fault
  line : Option String := none
  frames : List Position := []

namespace Diagnostic

/-- The diagnostic with a line, unless it has one. -/
def withLine (d : Diagnostic) (line : String) : Diagnostic :=
  { d with line := some (d.line.getD line) }

/-- The diagnostic with a trail of files, unless it has one. -/
def withFrames (d : Diagnostic) (frames : List Position) : Diagnostic :=
  if d.frames.isEmpty then { d with frames := frames } else d

/-- A fault in a line of the innermost file of a trail. -/
def failing (fault : Fault) (line : String) (frames : List Position) : Diagnostic :=
  (withLine ⟨fault, none, []⟩ line).withFrames frames

def location (d : Diagnostic) : Option Position :=
  d.frames.head?

/-- The diagnostic as text: the place, the kind and the message, then the line and the files
that led there. -/
def text (d : Diagnostic) : String :=
  let place := (d.location.map fun p => p.text ++ ": ").getD ""
  let line := (d.line.map fun l => "\n    | " ++ Text.trimmedEnd l).getD ""
  let trail := d.frames.tail.map fun p => "\n    included from " ++ p.text
  place ++ d.fault.kind.name ++ ": " ++ d.fault.message ++ line ++ String.join trail

end Diagnostic

end Preprocessor
