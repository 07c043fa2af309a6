/-
Comments of the C family.

A line comment runs from two slashes to the end of its line, which is kept.  A block comment
runs from a slash and a star to the next star and slash.  Neither starts inside a string,
in which a backslash takes the next character along.  The text is read by an automaton that
says for each character what is kept.
-/

namespace Preprocessor.Text

/-- Where in a text a character stands. -/
inductive Mode where
  | code
  | string
  | escape
  | slash
  | line
  /-- In a block comment that started after so many bytes. -/
  | block (start : Nat)
  /-- Likewise, right after a star. -/
  | blockStar (start : Nat)
deriving DecidableEq

namespace Mode

/-- The mode after a character of code, and what is kept. -/
def afterCode (c : Char) : Mode × List Char :=
  if c == '/' then (slash, [])
  else if c == '"' then (string, [c])
  else (code, [c])

/-- The mode after a character that has `offset` bytes before it, and what is kept. -/
def step (mode : Mode) (offset : Nat) (c : Char) : Mode × List Char :=
  match mode with
  | code => afterCode c
  | string => (if c == '\\' then escape else if c == '"' then code else string, [c])
  | escape => (string, [c])
  | slash =>
    if c == '/' then (line, [])
    else if c == '*' then (block (offset - 1), [])
    else if c == '"' then (string, ['/', c])
    else (code, ['/', c])
  | line => if c == '\n' || c == '\r' then (code, [c]) else (line, [])
  | block start => (if c == '*' then blockStar start else block start, [])
  | blockStar start =>
    (if c == '/' then code else if c == '*' then blockStar start else block start, [])

/-- What is still kept where the text ends. -/
def pending : Mode → List Char
  | slash => ['/']
  | _ => []

/-- The start of the block comment that is open. -/
def open? : Mode → Option Nat
  | block start => some start
  | blockStar start => some start
  | _ => none

/-- Reads a text on from a mode, after `offset` bytes of which `kept` is left, the last
character first. -/
def run (mode : Mode) (offset : Nat) (kept : List Char) : List Char → Mode × List Char
  | [] => (mode, kept.reverse ++ mode.pending)
  | c :: cs =>
    let (next, out) := mode.step offset c
    run next (offset + c.utf8Size) (out.reverse ++ kept) cs

end Mode

/-- What to do about a block comment that is not closed. -/
inductive Strictness where
  | lenient
  | strict
deriving DecidableEq

/-- A block comment that is not closed, and the number of bytes before it. -/
structure UnterminatedComment where
  offset : Nat
deriving DecidableEq

def UnterminatedComment.message (e : UnterminatedComment) : String :=
  "unterminated block comment starting at offset " ++ toString e.offset

def stripComments (s : String) (strictness : Strictness) : Except UnterminatedComment String :=
  let (last, kept) := Mode.code.run 0 [] s.toList
  match strictness, last.open? with
  | .strict, some start => .error ⟨start⟩
  | _, _ => .ok (String.ofList kept)

end Preprocessor.Text
