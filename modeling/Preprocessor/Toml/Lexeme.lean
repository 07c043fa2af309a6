/-
The small parts of a TOML text: blanks, line ends, comments, strings and keys.
-/
import Preprocessor.Decimal.Read
import Preprocessor.Text.Encoding
import Preprocessor.Toml.Reader

namespace Preprocessor.Toml.Reader

def isSpace (c : Char) : Bool :=
  c == ' ' || c == '\t'

/-- Whether a character may stand in a comment or a string at all: it is a tab or no control
character. -/
def isPlain (c : Char) : Bool :=
  c == '\t' || (0x20 ≤ c.toNat && c.toNat != 0x7F)

/-- Takes spaces and tabs. -/
def blanks : Reader Unit := do
  let _ ← span isSpace

/-- Takes the end of a line, which is a line feed with or without a carriage return. -/
def newline : Reader Unit :=
  text "\n" <|> text "\r\n"

def lineEnd : Reader Unit :=
  newline <|> atEnd

/-- Takes a comment up to the end of its line. -/
def comment : Reader Unit := do
  text "#"
  let _ ← span isPlain

def blankLines : Reader Unit := do
  let _ ← many (newline <|> do let _ ← span1 isSpace)

/-- Takes blanks, line ends and comments. -/
def filler : Reader Unit := do
  blanks
  let _ ← many (do let _ ← maybe comment; newline; blanks)

/-- The character of a code point in so many hexadecimal digits. -/
def codePoint (digits : Nat) : Reader Char := do
  let ds ← count Decimal.isHexDigit digits
  lift ((Decimal.nat? 16 ds).bind Encoding.scalar?)

/-- What a backslash and what follows it stand for. -/
def escaped : Reader Char := do
  text "\\"
  (do text "b"; return '\x08')
    <|> (do text "t"; return '\t')
    <|> (do text "n"; return '\n')
    <|> (do text "f"; return '\x0c')
    <|> (do text "r"; return '\r')
    <|> (do text "\""; return '"')
    <|> (do text "\\"; return '\\')
    <|> (do text "u"; codePoint 4)
    <|> (do text "U"; codePoint 8)

/-- Characters that stand for themselves in a string with escapes. -/
def unescaped : Reader (List Char) :=
  span1 fun c => isPlain c && c != '"' && c != '\\'

def basicString : Reader (List Char) := do
  text "\""
  let parts ← many (unescaped <|> do return [← escaped])
  text "\""
  return parts.flatten

def literalString : Reader (List Char) := do
  text "'"
  let cs ← span fun c => isPlain c && c != '\''
  text "'"
  return cs

/-- Takes a backslash at the end of a line, with all blanks and line ends after it. -/
def joinedLines : Reader Unit := do
  text "\\"
  blanks
  newline
  blankLines

/-- One or two quotes that do not end a string of three. -/
def looseQuotes (quote : Char) : Reader (List Char) := fun cs =>
  let run := cs.takeWhile (· == quote)
  if run.length == 1 || run.length == 2 then some (run, cs.dropWhile (· == quote)) else none

/-- Three quotes that end a string.  One or two more before them belong to the string. -/
def endQuotes (quote : Char) : Reader (List Char) := fun cs =>
  let run := cs.takeWhile (· == quote)
  let extra := min 2 (run.length - 3)
  if run.length < 3 then none else some (run.take extra, cs.drop (extra + 3))

/-- The content of a string in three quotes.  A line end right after the first three is left
out. -/
def multiline (quote : Char) (part : Reader (List Char)) : Reader (List Char) := do
  text (String.ofList [quote, quote, quote])
  let _ ← maybe newline
  let parts ← many (part <|> (do newline; return ['\n']) <|> looseQuotes quote)
  let extra ← endQuotes quote
  return parts.flatten ++ extra

/-- A string over several lines with escapes. -/
def multilineBasicString : Reader (List Char) :=
  multiline '"' (unescaped <|> (do joinedLines; return []) <|> do return [← escaped])

/-- A string over several lines without escapes. -/
def multilineLiteralString : Reader (List Char) :=
  multiline '\'' (span1 fun c => isPlain c && c != '\'')

def string : Reader String :=
  String.ofList <$>
    (multilineBasicString <|> basicString <|> multilineLiteralString <|> literalString)

/-- Whether a character may stand in a key without quotes. -/
def isBare (c : Char) : Bool :=
  c.isAlphanum || c == '_' || c == '-'

def keyPart : Reader String :=
  String.ofList <$> (basicString <|> literalString <|> span1 isBare)

/-- The greatest number of parts of a key. -/
def keyLimit : Nat := 79

/-- A key: parts with dots between them.  It is given as its last part and those before. -/
def key : Reader (List String × String) := do
  let parts ← separated (text ".") (do blanks; let part ← keyPart; blanks; return part)
  if keyLimit < parts.length then failure
  return (parts.dropLast, ← lift parts.getLast?)

end Preprocessor.Toml.Reader
