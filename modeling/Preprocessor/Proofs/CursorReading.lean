/-
Reading expressions in place.

The readers of expressions hand on the tokens that are left, and take the room for nesting as an
argument.  The same reading can be done in place, with one cursor: an index into the tokens, behind
which stands a slot for the end, and a count of the levels that are open, both changed as the
reading goes on.  Then nothing in the form of the readers keeps the index among the slots, gives the
count back or makes a loop end.  So an index without a slot, a count below zero and a clock that has
run down are endings of their own here, and every call is recorded with the cursors between which it
ran.
-/
import Preprocessor.Expr.Parse

namespace Preprocessor

/-! ## Cursors, calls and endings -/

/-- Where a reader stands: the index of the next slot, and how many levels are open. -/
structure Cursor where
  index : Nat := 0
  depth : Nat := 0

/-- What a reader can be asked for, and the rounds of its loops. -/
inductive Routine where
  | peek
  | advance
  | eat
  | expect
  | expectEnd
  | descend
  | nested
  | level (n : Nat)
  | chain (n : Nat)
  | chainRound (n : Nat)
  | unary
  | primary
  | arguments
  | argumentRound
  | listRound
deriving DecidableEq

namespace Routine

/-- Whether a routine leaves levels open for its caller to close. -/
def deepens : Routine → Bool
  | descend | chain _ | chainRound _ => true
  | _ => false

def isRound : Routine → Bool
  | chainRound _ | argumentRound | listRound => true
  | _ => false

end Routine

/-- A call: where it began, where it ended, and whether it gave a result. -/
structure Routine.Call where
  routine : Routine
  entry : Cursor
  exit : Cursor
  succeeded : Bool

/-- Why a reader gives no result. -/
inductive Breakdown where
  /-- The text has a fault. -/
  | fault (e : ParseError)
  /-- There is no slot at the index. -/
  | outside
  /-- A level was closed and none was open. -/
  | negative
  /-- The clock has run down. -/
  | timeout

/-- What a reader works on. -/
structure Desk where
  cursor : Cursor := {}
  /-- The calls that have ended, the last one first. -/
  calls : List Routine.Call := []

/-- A computation of a reader in place. -/
abbrev InPlace := ExceptT Breakdown (StateM Desk)

/-- The tokens, each with its position, and behind them the end of the text. -/
def Tokens.slots (ts : Tokens) : List (Option TokenKind × Nat) :=
  ts.items.map (fun t => (some t.kind, t.position)) ++ [(none, ts.stop)]

namespace InPlace

variable {α : Type}

/-! ## What every routine is made of -/

/-- Records a call of a routine, whatever comes of it. -/
def called (routine : Routine) (x : InPlace α) : InPlace α :=
  ExceptT.mk fun desk =>
    let o := x.run desk
    (o.1, { o.2 with calls := ⟨routine, desk.cursor, o.2.cursor, o.1.isOk⟩ :: o.2.calls })

theorem run_called (routine : Routine) (x : InPlace α) (desk : Desk) :
    (called routine x).run desk = ((x.run desk).1,
      ⟨(x.run desk).2.cursor, ⟨routine, desk.cursor, (x.run desk).2.cursor, (x.run desk).1.isOk⟩ ::
        (x.run desk).2.calls⟩) :=
  rfl

def here : InPlace Cursor :=
  return (← get).cursor

def put (c : Cursor) : InPlace Unit :=
  modify fun desk => { desk with cursor := c }

/-- A result or a fault as an outcome; nothing else is caught. -/
def caught : Except Breakdown α → Except Breakdown (Except ParseError α)
  | .ok a => .ok (.ok a)
  | .error (.fault e) => .ok (.error e)
  | .error breakdown => .error breakdown

/-- The outcome of a computation, a fault included. -/
def attempt (x : InPlace α) : InPlace (Except ParseError α) :=
  ExceptT.mk fun desk =>
    let o := x.run desk
    (caught o.1, o.2)

theorem run_attempt (x : InPlace α) (desk : Desk) :
    (attempt x).run desk = (caught (x.run desk).1, (x.run desk).2) :=
  rfl

/-- Goes on with an outcome. -/
def settle : Except ParseError α → InPlace α
  | .ok a => pure a
  | .error e => throw (.fault e)

variable (ts : Tokens)

def slot : InPlace (Option TokenKind × Nat) := do
  match ts.slots[(← here).index]? with
  | some found => return found
  | none => throw .outside

def fail (fault : ParseFault) : InPlace α := do
  throw (.fault ⟨(← slot ts).2, fault⟩)

/-- The next token, or that there is none. -/
def peek : InPlace (Option TokenKind) :=
  called .peek do return (← slot ts).1

/-- The slot at the index, which is left behind unless it is the end. -/
def advance : InPlace (Option TokenKind × Nat) :=
  called .advance do
    let found ← slot ts
    let c ← here
    put (if found.1.isSome then { c with index := c.index + 1 } else c)
    return found

/-- Takes a mark if it is next. -/
def eat (m : Mark) : InPlace Bool :=
  called .eat do
    let next ← peek ts
    if next = some (.mark m) then
      let _ ← advance ts
      return true
    else return false

/-- Takes a mark that has to be next. -/
def expect (m : Mark) : InPlace Unit :=
  called .expect do
    let found ← eat ts m
    if found then return () else fail ts (.expected m)

def expectEnd : InPlace Unit :=
  called .expectEnd do
    let next ← peek ts
    if next.isNone then return () else fail ts .trailingInput

def descend : InPlace Unit :=
  called .descend do
    let c ← here
    if Expr.maxNesting ≤ c.depth then fail ts (.tooDeep Expr.maxNesting)
    else put { c with depth := c.depth + 1 }

def ascend : InPlace Unit := do
  let c ← here
  match c.depth with
  | 0 => throw .negative
  | depth + 1 => put { c with depth := depth }

/-- A computation one level further in.  The level is closed whatever comes of the computation. -/
def nested (x : InPlace α) : InPlace α :=
  called .nested do
    descend ts
    let r ← attempt x
    ascend
    settle r

/-! ## Operators -/

/-- The operator of the level outside the innermost `n` that a token stands for. -/
def chainOperator? (n : Nat) : Option TokenKind → Option BinaryOp
  | some (.mark m) => m.binaryOp?.filter fun op => op.level + n + 1 = BinaryOp.levels
  | _ => none

def leadingOperator? : Option TokenKind → Option UnaryOp
  | some (.mark m) => m.unaryOp?
  | _ => none

/-- Reads on after a left operand, as long as operators of one level follow.  Each of them opens a
level that stays open for those behind it. -/
def links (operand : InPlace Expr) (n : Nat) : (clock : Nat) → Expr → InPlace Expr
  | 0, _ => throw .timeout
  | clock + 1, left => do
    let next ← peek ts
    match chainOperator? n next with
    | none => return left
    | some op =>
      let right ← called (.chainRound n) do
        let _ ← advance ts
        descend ts
        operand
      links operand n clock (.binary op left right)

/-- Reads operands of one level and the operators between them. -/
def chain (operand : InPlace Expr) (n clock : Nat) : InPlace Expr :=
  called (.chain n) do
    let left ← operand
    links ts operand n clock left

/-- Reads an expression whose operators between operands are of the innermost `n` levels.  The
levels that a chain has opened are closed whatever comes of it. -/
def level (operand : InPlace Expr) (clock : Nat) : (n : Nat) → InPlace Expr
  | 0 => operand
  | n + 1 =>
    called (.level n) do
      let base ← here
      let r ← attempt (chain ts (level operand clock n) n clock)
      let c ← here
      put { c with depth := base.depth }
      settle r

/-! ## Operands -/

/-- Reads an item, and whether a comma follows it; else the closing mark has to. -/
def argument (item : InPlace Expr) (close : Mark) : InPlace (Expr × Bool) :=
  called .argumentRound do
    let e ← nested ts item
    let more ← eat ts .comma
    if more then return (e, true)
    else
      expect ts close
      return (e, false)

/-- Reads one or more items between commas, and the closing mark. -/
def argumentsFrom (item : InPlace Expr) (close : Mark) : (clock : Nat) → InPlace (List Expr)
  | 0 => throw .timeout
  | clock + 1 => do
    let (e, more) ← argument ts item close
    if more then return e :: (← argumentsFrom item close clock) else return [e]

/-- Reads the items of a bracket that is open, none if it closes at once. -/
def arguments (item : InPlace Expr) (close : Mark) (clock : Nat) : InPlace (List Expr) :=
  called .arguments do
    let closed ← eat ts close
    if closed then return [] else argumentsFrom ts item close clock

/-- Reads a literal, a name, a call, a parenthesis or a set, with a reader of whole expressions. -/
def primary (item : InPlace Expr) (clock : Nat) : InPlace Expr :=
  called .primary do
    let (kind, position) ← advance ts
    match kind with
    | none => throw (.fault ⟨position, .unexpectedEnd⟩)
    | some (.literal v) => return .literal v
    | some (.name s) =>
      let opened ← eat ts .openParen
      if opened then return .call s (← arguments ts item .closeParen clock) else return .name s
    | some (.mark .openParen) =>
      let inner ← nested ts item
      expect ts .closeParen
      return inner
    | some (.mark .openBrace) => return .set (← arguments ts item .closeBrace clock)
    | some (.mark m) => throw (.fault ⟨position, .unexpectedMark m⟩)

/-- Reads operators in front of an operand, and the operand.  The clock ticks with each call inside
another. -/
def unary : (clock : Nat) → InPlace Expr
  | 0 => throw .timeout
  | clock + 1 =>
    called .unary do
      let next ← peek ts
      match leadingOperator? next with
      | none => primary ts (level ts (unary clock) clock BinaryOp.levels) clock
      | some op =>
        let _ ← advance ts
        let operand ← nested ts (unary clock)
        return .unary op operand

/-! ## Whole texts -/

def expression (clock : Nat) : InPlace Expr :=
  level ts (unary ts clock) clock BinaryOp.levels

def single (clock : Nat) : InPlace Expr := do
  let e ← expression ts clock
  expectEnd ts
  return e

/-- Reads an expression of a list, and whether a comma follows it. -/
def listed (item : InPlace Expr) : InPlace (Expr × Bool) :=
  called .listRound do
    let e ← item
    let more ← eat ts .comma
    return (e, more)

/-- Reads one or more expressions between commas up to the end. -/
def listFrom (item : InPlace Expr) : (clock : Nat) → InPlace (List Expr)
  | 0 => throw .timeout
  | clock + 1 => do
    let (e, more) ← listed ts item
    if more then return e :: (← listFrom item clock)
    else
      expectEnd ts
      return [e]

/-- Reads expressions between commas up to the end, none if there is no token. -/
def several (clock : Nat) : InPlace (List Expr) := do
  let next ← peek ts
  if next.isNone then return [] else listFrom ts (expression ts clock) clock

/-- Reads a text: what comes of it, and the calls that were made. -/
def onText (x : Tokens → InPlace α) (s : String) : Except Breakdown α × List Routine.Call :=
  match Token.scan s with
  | .error e => (.error (.fault e), [])
  | .ok ts => (((x ts).run {}).1, ((x ts).run {}).2.calls)

def parse (clock : Nat) : String → Except Breakdown Expr × List Routine.Call :=
  onText fun ts => single ts clock

def parseList (clock : Nat) : String → Except Breakdown (List Expr) × List Routine.Call :=
  onText fun ts => several ts clock

end InPlace

end Preprocessor
