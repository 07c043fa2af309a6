/-
Where a fault of an expression stands.

The readers of expressions work on what is left of the tokens.  A reader that fails does so at one
of the tokens that it was given or at the end of the text behind them, and one that succeeds leaves
a last part of its tokens to the next.  So a fault of the whole is at some token or at the end.
-/
import Preprocessor.Expr.Parse
import Preprocessor.Proofs.Computation

namespace Preprocessor

namespace Expr

/-- A reader that is given the tokens `ts` of a text that ends at `stop` leaves a last part of them,
or it fails at one of them or at the end. -/
inductive Located {β : Type} (left : β → List Token) (stop : Nat) (ts : List Token) :
    Except ParseError β → Prop
  | ok {b : β} : left b <:+ ts → Located left stop ts (.ok b)
  | error {err : ParseError} : err.position ∈ stop :: ts.map Token.position →
      Located left stop ts (.error err)

namespace Located

variable {β γ : Type} {left : β → List Token} {left' : γ → List Token} {stop : Nat}
  {ts ts' : List Token}

theorem mono {r : Except ParseError β} (h : Located left stop ts r) (hts : ts <:+ ts') :
    Located left stop ts' r := by
  cases h with
  | ok hb => exact .ok (hb.trans hts)
  | error herr => exact .error (List.cons_subset_cons _ (List.map_subset _ hts.subset) herr)

theorem tail {r : Except ParseError β} {t : Token} (h : Located left stop ts r) :
    Located left stop (t :: ts) r :=
  h.mono (List.suffix_cons t ts)

theorem bind {x : Except ParseError β} {f : β → Except ParseError γ} (h : Located left stop ts x)
    (hf : ∀ b, Located left' stop (left b) (f b)) : Located left' stop ts (x >>= f) := by
  cases h with
  | ok hb => exact (hf _).mono hb
  | error herr => exact .error herr

theorem pure {b : β} (h : left b = ts) : Located left stop ts (Pure.pure b) :=
  .ok (h ▸ List.suffix_rfl)

theorem faultAt (fault : ParseFault) : Located left stop ts (faultAt stop ts fault) := by
  refine .error ?_
  cases ts with
  | nil => exact List.mem_cons_self
  | cons t ts => exact List.mem_cons_of_mem _ List.mem_cons_self

end Located

variable {stop : Nat} {ts : List Token}

theorem located_parseClose (close : Mark) : Located id stop ts (parseClose stop close ts) := by
  unfold parseClose
  split
  · split
    · exact .ok (List.suffix_cons _ _)
    · exact .faultAt _
  · exact .faultAt _

theorem located_parseItems {item : Parser Expr} (hitem : ∀ ts, Located Prod.snd stop ts (item ts))
    (close : Mark) (limit : Nat) :
    Located Prod.snd stop ts (parseItems stop close item limit ts) := by
  induction limit generalizing ts with
  | zero => exact .faultAt _
  | succ limit ih =>
      refine (hitem ts).bind fun p => ?_
      rcases p with ⟨e, rest⟩
      dsimp only
      split
      · refine ih.tail.bind fun q => ?_
        exact .pure rfl
      · exact (located_parseClose close).bind fun after => .pure rfl

theorem located_parseBracket {item : Parser Expr}
    (hitem : ∀ ts, Located Prod.snd stop ts (item ts)) (close : Mark) :
    Located Prod.snd stop ts (parseBracket stop close item ts) := by
  unfold parseBracket
  split
  · rename_i rest hclose
    have h : Located id stop ts (parseClose stop close ts) := located_parseClose close
    rw [hclose] at h
    cases h with
    | ok hrest => exact .ok hrest
  · exact located_parseItems hitem close _

mutual

theorem located_parseLevel (stop room n : Nat) (ts : List Token) :
    Located Prod.snd stop ts (parseLevel stop room n ts) := by
  rw [parseLevel.eq_def]
  split
  · exact located_parseUnary stop room ts
  · exact (located_parseLevel stop room _ ts).bind fun p =>
      located_parseChain stop room _ p.1 p.2
termination_by 10 * room + n + 3

theorem located_parseChain (stop room n : Nat) (left : Expr) (ts : List Token) :
    Located Prod.snd stop ts (parseChain stop room n left ts) := by
  rw [parseChain.eq_def]
  split
  · split
    · exact .ok List.suffix_rfl
    · split
      · split
        · exact (Located.faultAt _).tail
        · refine Located.tail ?_
          exact (located_parseLevel stop _ n _).bind fun p =>
            located_parseChain stop _ n _ p.2
      · exact .ok List.suffix_rfl
  · exact .ok List.suffix_rfl
termination_by 10 * room + n

theorem located_parseUnary (stop room : Nat) (ts : List Token) :
    Located Prod.snd stop ts (parseUnary stop room ts) := by
  rw [parseUnary.eq_def]
  split
  · split
    · exact located_parsePrimary stop room _
    · split
      · exact (Located.faultAt _).tail
      · refine ((located_parseUnary stop _ _).bind fun p => ?_).tail
        exact .pure rfl
  · exact located_parsePrimary stop room ts
termination_by 10 * room + 2

theorem located_parsePrimary (stop room : Nat) (ts : List Token) :
    Located Prod.snd stop ts (parsePrimary stop room ts) := by
  rw [parsePrimary.eq_def]
  split
  · exact .error List.mem_cons_self
  · exact .ok (List.suffix_cons _ _)
  · refine ((located_parseBracket (located_parseNested stop room) _).bind fun p => ?_).tail.tail
    exact .pure rfl
  · exact .ok (List.suffix_cons _ _)
  · refine ((located_parseNested stop room _).bind fun p => ?_).tail
    exact (located_parseClose _).bind fun after => .pure rfl
  · refine ((located_parseBracket (located_parseNested stop room) _).bind fun p => ?_).tail
    exact .pure rfl
  · exact .error (List.mem_cons_of_mem _ List.mem_cons_self)
termination_by 10 * room + 1

theorem located_parseNested (stop room : Nat) (ts : List Token) :
    Located Prod.snd stop ts (parseNested stop room ts) := by
  rw [parseNested.eq_def]
  split
  · exact .faultAt _
  · exact located_parseLevel stop _ BinaryOp.levels ts
termination_by 10 * room
decreasing_by unfold BinaryOp.levels; omega

end

theorem located_parseEnd : Located (fun _ => []) stop ts (parseEnd stop ts) := by
  unfold parseEnd
  split
  · exact .ok List.nil_suffix
  · exact .faultAt _

theorem located_parseUntilEnd (limit : Nat) :
    Located (fun _ => []) stop ts (parseUntilEnd stop limit ts) := by
  induction limit generalizing ts with
  | zero => exact .faultAt _
  | succ limit ih =>
      refine (located_parseLevel stop maxNesting BinaryOp.levels ts).bind fun p => ?_
      rcases p with ⟨e, rest⟩
      dsimp only
      split
      · exact (ih.bind fun es => .pure rfl).tail
      · exact located_parseEnd.bind fun _ => .pure rfl

/-- The fault is one that the text was scanned with, or it is at a token of the text or at its
end. -/
def FaultOf (s : String) (err : ParseError) : Prop :=
  Token.scan s = .error err ∨
    ∃ tokens, Token.scan s = .ok tokens ∧
      err.position ∈ tokens.stop :: tokens.items.map Token.position

section

variable {α : Type} {s : String} {err : ParseError}

theorem faultOf_of_bind {read : Tokens → Except ParseError α}
    (hread : ∀ tokens : Tokens, Located (fun _ => []) tokens.stop tokens.items (read tokens))
    (h : Token.scan s >>= read = .error err) : FaultOf s err := by
  cases hscan : Token.scan s with
  | error err' =>
      rw [hscan] at h
      cases h
      exact .inl hscan
  | ok tokens =>
      rw [hscan] at h
      have hlocated := hread tokens
      rw [show read tokens = .error err from h] at hlocated
      cases hlocated with
      | error hposition => exact .inr ⟨tokens, hscan, hposition⟩

theorem faultOf_parse (h : parse s = .error err) : FaultOf s err := by
  refine faultOf_of_bind (fun tokens => ?_) h
  refine (located_parseLevel tokens.stop maxNesting BinaryOp.levels tokens.items).bind fun p => ?_
  exact located_parseEnd.bind fun _ => .pure rfl

theorem faultOf_parseList (h : parseList s = .error err) : FaultOf s err := by
  refine faultOf_of_bind (fun tokens => ?_) h
  split
  · exact .ok List.nil_suffix
  · exact located_parseUntilEnd _

end

end Expr

end Preprocessor
