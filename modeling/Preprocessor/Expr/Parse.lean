/-
Reading expressions.

The grammar has six levels of operators between operands, each associating to the left,
above operators in front of an operand and the primary forms.  Nesting is limited: a unary
operand, a parenthesis, an argument and a member each take one unit of the room that is
left, and in a chain of operators of one level every right operand has one unit less than
the one before it.  The room bounds the recursion.
-/
import Preprocessor.Token.Scan

namespace Preprocessor

namespace Expr

/-- How deep an expression may be nested. -/
def maxNesting : Nat := 256

/-- A reader of tokens: what it read, and the tokens after it. -/
abbrev Parser (α : Type) := List Token → Except ParseError (α × List Token)

/-- Where the tokens go on in a text that ends at `stop`. -/
def positionOf (stop : Nat) : List Token → Nat
  | [] => stop
  | t :: _ => t.position

def faultAt {α : Type} (stop : Nat) (ts : List Token) (fault : ParseFault) :
    Except ParseError α :=
  .error ⟨positionOf stop ts, fault⟩

def parseClose (stop : Nat) (close : Mark) (ts : List Token) : Except ParseError (List Token) :=
  match ts with
  | ⟨.mark m, _⟩ :: rest => if m = close then .ok rest else faultAt stop ts (.expected close)
  | _ => faultAt stop ts (.expected close)

/-- Reads one or more items between commas, and the closing mark.  Every item but the last is
followed by a comma, so more items than tokens never come. -/
def parseItems (stop : Nat) (close : Mark) (item : Parser Expr) :
    (limit : Nat) → Parser (List Expr)
  | 0, ts => faultAt stop ts (.expected close)
  | limit + 1, ts => do
    let (e, rest) ← item ts
    match rest with
    | ⟨.mark .comma, _⟩ :: more =>
      let (es, after) ← parseItems stop close item limit more
      return (e :: es, after)
    | _ =>
      let after ← parseClose stop close rest
      return ([e], after)

/-- Reads the items of a bracket that is open, none if it closes at once. -/
def parseBracket (stop : Nat) (close : Mark) (item : Parser Expr) : Parser (List Expr) :=
  fun ts =>
    match parseClose stop close ts with
    | .ok rest => .ok ([], rest)
    | .error _ => parseItems stop close item (ts.length + 1) ts

mutual

/-- Reads an expression whose operators between operands are of the innermost `n` levels. -/
def parseLevel (stop room : Nat) (n : Nat) (ts : List Token) :
    Except ParseError (Expr × List Token) :=
  match n with
  | 0 => parseUnary stop room ts
  | n + 1 => do
    let (left, rest) ← parseLevel stop room n ts
    parseChain stop room n left rest
termination_by 10 * room + n + 3

/-- Reads on after a left operand, as long as operators of the level outside the innermost `n`
follow. -/
def parseChain (stop room : Nat) (n : Nat) (left : Expr) (ts : List Token) :
    Except ParseError (Expr × List Token) :=
  match ts with
  | ⟨.mark m, _⟩ :: rest =>
    match m.binaryOp? with
    | none => .ok (left, ts)
    | some op =>
      if op.level + n + 1 = BinaryOp.levels then
        match room with
        | 0 => faultAt stop rest (.tooDeep maxNesting)
        | room + 1 => do
          let (right, after) ← parseLevel stop room n rest
          parseChain stop room n (.binary op left right) after
      else .ok (left, ts)
  | _ => .ok (left, ts)
termination_by 10 * room + n

/-- Reads operators in front of an operand, and the operand. -/
def parseUnary (stop room : Nat) (ts : List Token) : Except ParseError (Expr × List Token) :=
  match ts with
  | ⟨.mark m, _⟩ :: rest =>
    match m.unaryOp? with
    | none => parsePrimary stop room ts
    | some op =>
      match room with
      | 0 => faultAt stop rest (.tooDeep maxNesting)
      | room + 1 => do
        let (operand, after) ← parseUnary stop room rest
        return (.unary op operand, after)
  | _ => parsePrimary stop room ts
termination_by 10 * room + 2

/-- Reads a literal, a name, a call, a parenthesis or a set. -/
def parsePrimary (stop room : Nat) (ts : List Token) : Except ParseError (Expr × List Token) :=
  match ts with
  | [] => .error ⟨stop, .unexpectedEnd⟩
  | ⟨.literal v, _⟩ :: rest => .ok (.literal v, rest)
  | ⟨.name s, _⟩ :: ⟨.mark .openParen, _⟩ :: rest => do
    let (args, after) ← parseBracket stop .closeParen (parseNested stop room) rest
    return (.call s args, after)
  | ⟨.name s, _⟩ :: rest => .ok (.name s, rest)
  | ⟨.mark .openParen, _⟩ :: rest => do
    let (inner, after) ← parseNested stop room rest
    let after ← parseClose stop .closeParen after
    return (inner, after)
  | ⟨.mark .openBrace, _⟩ :: rest => do
    let (items, after) ← parseBracket stop .closeBrace (parseNested stop room) rest
    return (.set items, after)
  | ⟨.mark m, position⟩ :: _ => .error ⟨position, .unexpectedMark m⟩
termination_by 10 * room + 1

/-- Reads a whole expression one unit of room further in. -/
def parseNested (stop room : Nat) (ts : List Token) : Except ParseError (Expr × List Token) :=
  match room with
  | 0 => faultAt stop ts (.tooDeep maxNesting)
  | room + 1 => parseLevel stop room BinaryOp.levels ts
termination_by 10 * room
decreasing_by unfold BinaryOp.levels; omega

end

def parseOne (stop : Nat) : Parser Expr :=
  parseLevel stop maxNesting BinaryOp.levels

def parseEnd (stop : Nat) (ts : List Token) : Except ParseError Unit :=
  if ts.isEmpty then .ok () else faultAt stop ts .trailingInput

def parseUntilEnd (stop : Nat) : (limit : Nat) → List Token → Except ParseError (List Expr)
  | 0, ts => faultAt stop ts .trailingInput
  | limit + 1, ts => do
    let (e, rest) ← parseOne stop ts
    match rest with
    | ⟨.mark .comma, _⟩ :: more => return e :: (← parseUntilEnd stop limit more)
    | _ =>
      parseEnd stop rest
      return [e]

def parse (s : String) : Except ParseError Expr := do
  let tokens ← Token.scan s
  let (e, rest) ← parseOne tokens.stop tokens.items
  parseEnd tokens.stop rest
  return e

/-- The expressions that a text holds between commas; a blank text holds none. -/
def parseList (s : String) : Except ParseError (List Expr) := do
  let tokens ← Token.scan s
  if tokens.items.isEmpty then return []
  parseUntilEnd tokens.stop (tokens.items.length + 1) tokens.items

end Expr

end Preprocessor
