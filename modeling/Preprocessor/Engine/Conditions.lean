/-
Open conditional blocks.

The blocks of a file that are open form a stack, the innermost first.  A branch is active if
it was selected and the region around its block was active.  Opening a block and going to an
`elif` may need the value of a condition; what needs none is settled at once.  An excluded
file stays suppressed whatever its blocks say.
-/
import Preprocessor.Diagnostic

namespace Preprocessor

inductive LineState where
  | active
  | suppressedByCondition
  | suppressedByExclusion
deriving DecidableEq

structure Block where
  /-- The current branch counts. -/
  active : Bool
  /-- Some branch so far was selected. -/
  taken : Bool
  /-- The region around the block counted when it was opened. -/
  outerActive : Bool
  /-- The `else` branch has begun. -/
  elseSeen : Bool
  /-- The line that opened the block. -/
  openedAt : Nat
deriving DecidableEq

/-- The open blocks of a file, the innermost first, and whether the file is excluded. -/
structure Conditions where
  blocks : List Block := []
  excluded : Bool := false
deriving DecidableEq

namespace Conditions

def depth (c : Conditions) : Nat :=
  c.blocks.length

def isActive (c : Conditions) : Bool :=
  !c.excluded && c.blocks.head?.all (·.active)

def state (c : Conditions) : LineState :=
  if c.excluded then .suppressedByExclusion
  else if c.isActive then .active
  else .suppressedByCondition

def innermostOpen (c : Conditions) : Option Nat :=
  c.blocks.head?.map (·.openedAt)

/-- What becomes of the blocks: known at once, or once a condition is. -/
inductive Pending where
  | settled (c : Conditions)
  | asks (next : Bool → Conditions)

/-- The blocks with one more, whose first branch is selected or not. -/
def push (c : Conditions) (line : Nat) (selected : Bool) : Conditions :=
  let outer := c.isActive
  { c with blocks := ⟨outer && selected, selected, outer, false, line⟩ :: c.blocks }

/-- Opens a block; its condition counts only in an active region. -/
def openBlock (c : Conditions) (line : Nat) : Pending :=
  if c.isActive then .asks (c.push line) else .settled (c.push line false)

/-- Goes to a further branch with a condition, which counts only if the block is in an active
region and no branch of it was selected. -/
def elseIf (c : Conditions) : Except Fault Pending :=
  match c.blocks with
  | [] => .error .elifWithoutIf
  | top :: rest =>
    if top.elseSeen then .error .elifAfterElse
    else if !top.outerActive || top.taken then
      .ok (.settled { c with blocks := { top with active := false } :: rest })
    else
      .ok (.asks fun b => { c with blocks := { top with active := b, taken := b } :: rest })

/-- Goes to the last branch, which is selected if no other was. -/
def otherwise (c : Conditions) : Except Fault Conditions :=
  match c.blocks with
  | [] => .error .elseWithoutIf
  | top :: rest =>
    if top.elseSeen then .error .duplicateElse
    else
      let last :=
        { top with active := top.outerActive && !top.taken, taken := true, elseSeen := true }
      .ok { c with blocks := last :: rest }

def close (c : Conditions) : Except Fault Conditions :=
  match c.blocks with
  | [] => .error .endifWithoutIf
  | _ :: rest => .ok { c with blocks := rest }

def exclude (c : Conditions) : Conditions :=
  { c with excluded := true }

end Conditions

end Preprocessor
