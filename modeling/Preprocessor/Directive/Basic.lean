/-
Lines that are directives, and lines that are comments to be switched on.

After its indentation a line that starts with `//#` is a directive, and one that starts with
`//$` is a toggle line, whose body becomes code; with `//$$` the body is taken as it stands.
-/
import Preprocessor.Diagnostic
import Preprocessor.Text.Letter
import Preprocessor.Text.Lines

namespace Preprocessor

inductive Directive where
  | ifTrue (expr : String)
  | ifDefined (name : String)
  | ifNotDefined (name : String)
  | elseIf (expr : String)
  | otherwise
  | endIf
  | excludeIf (expr : String)
  | define (name : String) (expr : Option String)
  | undefine (name : String)
  | defineGlobal (name : String) (expr : Option String)
  | includeFile (expr : String)
  | action (args : String)
  | outname (expr : String)
  | error (expr : String)
  | warning (expr : String)
  | echo (expr : String)
  | outputOff
  | outputOn
  | commentNext
  | unknown (text : String)
deriving DecidableEq

def Directive.isConditional : Directive → Bool
  | ifTrue _ | ifDefined _ | ifNotDefined _ | elseIf _ | otherwise | endIf => true
  | _ => false

inductive LineKind where
  | text
  | directive (d : Directive)
  | toggle (indent body : String) (raw : Bool)
deriving DecidableEq

namespace Directive

def isKeywordChar (c : Char) : Bool :=
  c.isAlpha || c == '_'

/-- The keyword that a directive starts with, and what follows it. -/
def splitKeyword (body : List Char) : String × List Char :=
  (String.ofList (body.takeWhile isKeywordChar), body.dropWhile isKeywordChar)

/-- An argument that has to be there. -/
def expression (keyword : String) (args : List Char) : Except Fault String :=
  if args.isEmpty then .error (.needsExpression keyword) else .ok (String.ofList args)

def singleName (keyword : String) (args : List Char) : Except Fault String :=
  if Text.isName args then .ok (String.ofList args) else .error (.needsSingleName keyword)

def noArguments (keyword : String) (args : List Char) (d : Directive) : Except Fault Directive :=
  if args.isEmpty then .ok d else .error (.unexpectedText keyword (String.ofList args))

/-- The name that a text starts with, and what follows it. -/
def splitName : List Char → List Char × List Char
  | [] => ([], [])
  | c :: rest =>
    if Text.isNameStart c then (c :: rest.takeWhile Text.isNamePart, rest.dropWhile Text.isNamePart)
    else ([], c :: rest)

/-- A name, alone or with an equals sign and an expression. -/
def assignment (keyword : String) (args : List Char) :
    Except Fault (String × Option String) :=
  let (nameChars, tail) := splitName args
  let name := String.ofList nameChars
  if nameChars.isEmpty then .error (.needsName keyword)
  else
    match Text.trimStart tail with
    | [] => .ok (name, none)
    | '=' :: '=' :: _ => .error (.expectedEquals keyword name "==")
    | '=' :: rest =>
      let expr := Text.trim rest
      if expr.isEmpty then .error (.missingValue keyword name)
      else .ok (name, some (String.ofList expr))
    | rest => .error (.expectedEquals keyword name (String.ofList rest))

/-- The directive of a keyword and its arguments; `whole` is the text of both. -/
def ofKeyword (keyword : String) (args whole : List Char) : Except Fault Directive :=
  if keyword == "if" then (expression keyword args).map .ifTrue
  else if keyword == "ifdef" then (singleName keyword args).map .ifDefined
  else if keyword == "ifndef" then (singleName keyword args).map .ifNotDefined
  else if keyword == "elif" then (expression keyword args).map .elseIf
  else if keyword == "else" then noArguments keyword args .otherwise
  else if keyword == "endif" then noArguments keyword args .endIf
  else if keyword == "excludeif" then (expression keyword args).map .excludeIf
  else if keyword == "define" then
    (assignment keyword args).map fun (name, expr) => .define name expr
  else if keyword == "undef" then (singleName keyword args).map .undefine
  else if keyword == "global" then
    (assignment keyword args).map fun (name, expr) => .defineGlobal name expr
  else if keyword == "include" then (expression keyword args).map .includeFile
  else if keyword == "action" then (expression keyword args).map .action
  else if keyword == "outname" then (expression keyword args).map .outname
  else if keyword == "error" then (expression keyword args).map .error
  else if keyword == "warning" then (expression keyword args).map .warning
  else if keyword == "echo" then (expression keyword args).map .echo
  else .ok (.unknown (String.ofList (Text.trimEnd whole)))

def ofBody (body : List Char) : Except Fault Directive :=
  match Text.after? ['/', '/'] body with
  | some _ => .ok .commentNext
  | none =>
    if Text.trimEnd body == ['-'] then .ok .outputOff
    else if Text.trimEnd body == ['+'] then .ok .outputOn
    else
      let (keyword, rest) := splitKeyword body
      if rest.head?.all Text.isBlank then ofKeyword keyword (Text.trim rest) body
      else .ok (.unknown (String.ofList (Text.trimEnd body)))

/-- The directive of a text that follows `//#`. -/
def parse (body : String) : Except Fault Directive :=
  ofBody body.toList

end Directive

namespace LineKind

/-- What follows the mark of a directive. -/
def directiveBody? (content : String) : Option (List Char) :=
  Text.after? ['/', '/', '#'] (content.toList.dropWhile Text.isBlank)

def classify (content : String) : Except Fault LineKind :=
  let indent := Text.indentation content
  let rest := content.toList.dropWhile Text.isBlank
  match directiveBody? content with
  | some body => (Directive.ofBody body).map .directive
  | none =>
    match Text.after? ['/', '/', '$', '$'] rest with
    | some body => .ok (.toggle indent (String.ofList body) true)
    | none =>
      match Text.after? ['/', '/', '$'] rest with
      | some body => .ok (.toggle indent (String.ofList body) false)
      | none => .ok .text

def conditionalKeywords : List String :=
  ["if", "ifdef", "ifndef", "elif", "else", "endif"]

/-- Whether a line is marked as a directive whose keyword does not shape the conditional
blocks.  Its arguments are not looked at. -/
def isPlainDirective (content : String) : Bool :=
  match directiveBody? content with
  | some body => !conditionalKeywords.contains (Directive.splitKeyword body).1
  | none => false

end LineKind

end Preprocessor
