/-
Cutting the text of an expression into tokens.

Each reader takes the characters from where its token starts and gives the token with the
number of characters that it covers.  A token covers at least one character, so the scan
ends.
-/
import Preprocessor.Decimal.Read
import Preprocessor.Text.Blank
import Preprocessor.Text.Letter
import Preprocessor.Token.Basic

namespace Preprocessor

namespace Token

/-- A fault at a distance from the start of the token. -/
abbrev Fault := Nat × ParseFault

/-- What a reader gives: the token and the number of characters it covers. -/
abbrev Read := Except Fault (TokenKind × Nat)

def escaped? : Char → Option Char
  | 'n' => some '\n'
  | 'r' => some '\r'
  | 't' => some '\t'
  | '0' => some '\x00'
  | '"' => some '"'
  | '\\' => some '\\'
  | _ => none

/-- The rest of a string literal, of which `count` characters are read and give `before`, the
last one first. -/
def readString (before : List Char) (count : Nat) : List Char → Read
  | [] => .error (0, .unterminatedString)
  | '"' :: _ => .ok (.literal (.str (String.ofList before.reverse)), count + 1)
  | '\\' :: rest =>
    match rest with
    | [] => .error (0, .unterminatedString)
    | c :: more =>
      match escaped? c with
      | some e => readString (e :: before) (count + 2) more
      | none => .error (count + 1, .unknownEscape c)
  | c :: rest => readString (c :: before) (count + 1) rest

/-- A hexadecimal number whose mark is read. -/
def readHex (rest : List Char) : Read :=
  let digits := rest.takeWhile Decimal.isHexDigit
  match Decimal.readInt 16 digits with
  | some n => .ok (.literal (.int n), digits.length + 2)
  | none => .error (0, .badHexadecimal)

/-- The decimal places that a number has if a digit follows its point. -/
def fraction : List Char → List Char
  | '.' :: rest =>
    let digits := rest.takeWhile Decimal.isDigit
    if digits.isEmpty then [] else '.' :: digits
  | _ => []

/-- The exponent that a number has if a digit follows the mark and its optional sign. -/
def exponent : List Char → List Char
  | [] => []
  | e :: rest =>
    if e == 'e' || e == 'E' then
      let sign := rest.take 1 |>.filter fun c => c == '+' || c == '-'
      let digits := (rest.drop sign.length).takeWhile Decimal.isDigit
      if digits.isEmpty then [] else e :: sign ++ digits
    else []

/-- A number that is not hexadecimal: an integer unless it has a fraction or an exponent. -/
def readDecimal (cs : List Char) : Read :=
  let whole := cs.takeWhile Decimal.isDigit
  let places := fraction (cs.drop whole.length)
  let power := exponent (cs.drop (whole.length + places.length))
  let text := whole ++ places ++ power
  if places.isEmpty && power.isEmpty then
    match Decimal.readInt 10 text with
    | some n => .ok (.literal (.int n), text.length)
    | none => .error (0, .integerOutOfRange)
  else
    match Decimal.readFloat text with
    | some x => .ok (.literal (.float x), text.length)
    | none => .error (0, .badFloat)

def readNumber : List Char → Read
  | '0' :: 'x' :: rest => readHex rest
  | '0' :: 'X' :: rest => readHex rest
  | cs => readDecimal cs

/-- The characters of a name that starts with `first`; dots at its end are not part of it. -/
def nameFrom (first : Char) (rest : List Char) : List Char :=
  first :: ((rest.takeWhile Text.isNamePart).reverse.dropWhile (· == '.')).reverse

/-- What a word says: a truth value, the membership operator or a name. -/
def ofWord (word : String) : TokenKind :=
  if word == "true" then .literal (.bool true)
  else if word == "false" then .literal (.bool false)
  else if word == "in" then .mark .inWord
  else .name word

def single? : Char → Option Mark
  | '(' => some .openParen
  | ')' => some .closeParen
  | '{' => some .openBrace
  | '}' => some .closeBrace
  | ',' => some .comma
  | '+' => some .plus
  | '-' => some .minus
  | '*' => some .star
  | '/' => some .slash
  | '%' => some .percent
  | _ => none

/-- A mark of two characters, or what its first character is alone. -/
def pair (second : Char) (both : Mark) (alone : Except ParseFault Mark) (rest : List Char) : Read :=
  if rest.head? == some second then .ok (.mark both, 2)
  else
    match alone with
    | .ok m => .ok (.mark m, 1)
    | .error fault => .error (0, fault)

/-- The token that starts with `c`, which is not blank. -/
def readFrom (c : Char) (rest : List Char) : Read :=
  match single? c with
  | some m => .ok (.mark m, 1)
  | none =>
    if c == '!' then pair '=' .notEq (.ok .bang) rest
    else if c == '=' then pair '=' .eqEq (.error .loneEquals) rest
    else if c == '<' then pair '=' .lessEq (.ok .less) rest
    else if c == '>' then pair '=' .greaterEq (.ok .greater) rest
    else if c == '&' then pair '&' .andAnd (.error .loneAmpersand) rest
    else if c == '|' then pair '|' .orOr (.error .loneBar) rest
    else if c == '"' then readString [] 1 rest
    else if Decimal.isDigit c then readNumber (c :: rest)
    else if Text.isNameStart c then
      let name := nameFrom c rest
      .ok (ofWord (String.ofList name), name.length)
    else .error (0, .unexpectedChar c)

/-- The tokens of the text that follows `position` characters. -/
def scanFrom (position : Nat) : List Char → Except ParseError Tokens
  | [] => .ok ⟨[], position⟩
  | c :: rest =>
    if Text.isBlank c then scanFrom (position + 1) rest
    else
      match readFrom c rest with
      | .error (distance, fault) => .error ⟨position + distance, fault⟩
      | .ok (kind, count) =>
        (scanFrom (position + max 1 count) (rest.drop (count - 1))).map fun ts =>
          { ts with items := ⟨kind, position⟩ :: ts.items }
termination_by cs => cs.length

def scan (s : String) : Except ParseError Tokens :=
  scanFrom 0 s.toList

end Token

end Preprocessor
