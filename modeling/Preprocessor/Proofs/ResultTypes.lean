/-
The type of a value is known before the value.

Every operator and every function of the language has a table that gives the type of its result by
the types of its operands, and none for operands that it does not take.  So the type of an
expression follows from the types of its names, and a value that is found has this type: that the
right operand of a logical operator may be left alone does not matter, since the result is a truth
value either way.

The tables are written down apart from the operators and functions, and each is shown to agree with
what it describes, operator by operator.  The induction over expressions then uses the tables
alone.
-/
import Preprocessor.Proofs.IntegerExactness

namespace Preprocessor

variable {σ : Type}

/-! ## Operators -/

namespace ValueType

def isNumber : ValueType → Bool
  | int | float => true
  | _ => false

/-- The type of an operation on two numbers of which at least one is a double. -/
def widened? (l r : ValueType) : Option ValueType :=
  if l.isNumber && r.isNumber then some .float else none

def sum? : ValueType → ValueType → Option ValueType
  | int, int => some .int
  | set, set => some .set
  | set, str => some .set
  | str, _ => some .str
  | _, str => some .str
  | l, r => widened? l r

def difference? : ValueType → ValueType → Option ValueType
  | int, int => some .int
  | set, set => some .set
  | set, str => some .set
  | l, r => widened? l r

def product? : ValueType → ValueType → Option ValueType
  | int, int => some .int
  | l, r => widened? l r

end ValueType

/-- Whether a test is defined for operands of two types. -/
def BinaryOp.isTestOf (l r : ValueType) : BinaryOp → Bool
  | eq | ne => l = r || l.isNumber && r.isNumber
  | lt | le | gt | ge => l = .str && r = .str || l.isNumber && r.isNumber
  | mem => l = .str && (r = .set || r = .str)
  | and | or => l = .bool && r = .bool
  | _ => false

def BinaryOp.type? (op : BinaryOp) (l r : ValueType) : Option ValueType :=
  match op with
  | add => l.sum? r
  | sub => l.difference? r
  | mul | div | rem => l.product? r
  | op => if op.isTestOf l r then some .bool else none

def UnaryOp.type? (op : UnaryOp) (v : ValueType) : Option ValueType :=
  match op with
  | not => if v = .bool then some .bool else none
  | neg => if v.isNumber then some v else none

theorem UnaryOp.type?_of_apply {op : UnaryOp} {v w : Value} (h : op.apply v = .ok w) :
    op.type? v.type = some w.type := by
  cases op with
  | not =>
      cases v with
      | bool b =>
          cases h
          rfl
      | _ => cases h
  | neg =>
      cases v with
      | int n =>
          rcases apply_neg_cases n with ⟨k, hk, -⟩ | ⟨fault, hfault, -⟩
          · cases h.symm.trans hk
            rfl
          · cases h.symm.trans hfault
      | float x =>
          cases h
          rfl
      | _ => cases h

namespace Value

variable {op : BinaryOp} {l r : Value}

theorem isTestOf_of_equals {b : Bool} (h : equals op l r = .ok b) :
    BinaryOp.eq.isTestOf l.type r.type = true := by
  cases l <;> cases r <;> cases h <;> rfl

theorem isTestOf_of_order {o : Option Ordering} (h : order op l r = .ok o) :
    BinaryOp.lt.isTestOf l.type r.type = true := by
  cases l <;> cases r <;> cases h <;> rfl

theorem isTestOf_of_member {b : Bool} (h : member op l r = .ok b) :
    BinaryOp.mem.isTestOf l.type r.type = true := by
  cases l <;> cases r <;> cases h <;> rfl

theorem isTestOf_of_logical {f : Bool → Bool → Bool} {w : Value} (h : logical op f l r = .ok w) :
    BinaryOp.and.isTestOf l.type r.type = true ∧ w.type = .bool := by
  cases l with
  | bool a =>
      cases r with
      | bool b =>
          cases h
          exact ⟨rfl, rfl⟩
      | _ => cases h
  | _ => cases h

end Value

namespace BinaryOp

variable {op : BinaryOp} {l r w : Value}

theorem type?_of_arithmetic (hop : op.isArithmetic = true) (h : op.apply l r = .ok w) :
    op.type? l.type r.type = some w.type := by
  by_cases hints : ∃ a b, l = .int a ∧ r = .int b
  · obtain ⟨a, b, rfl, rfl⟩ := hints
    rcases settles_apply hop a b with ⟨n, hn, -⟩ | ⟨fault, hfault, -⟩
    · cases h.symm.trans hn
      cases op with
      | add | sub | mul | div | rem => rfl
      | _ => cases hop
    · cases h.symm.trans hfault
  · cases op with
    | add | sub | mul | div | rem =>
        cases l <;> cases r <;> first | exact absurd ⟨_, _, rfl, rfl⟩ hints | (cases h <;> rfl)
    | _ => cases hop

/-- The value of an operator has the type that its table gives. -/
theorem type?_of_apply (h : op.apply l r = .ok w) : op.type? l.type r.type = some w.type := by
  cases op with
  | add | sub | mul | div | rem => exact type?_of_arithmetic rfl h
  | eq | ne =>
      obtain ⟨b, hb, rfl⟩ := exists_of_map_eq_ok h
      exact if_pos (Value.isTestOf_of_equals hb)
  | lt | le | gt | ge =>
      obtain ⟨o, ho, rfl⟩ := exists_of_map_eq_ok h
      exact if_pos (Value.isTestOf_of_order ho)
  | mem =>
      obtain ⟨b, hb, rfl⟩ := exists_of_map_eq_ok h
      exact if_pos (Value.isTestOf_of_member hb)
  | and | or =>
      obtain ⟨htest, hw⟩ := Value.isTestOf_of_logical h
      rw [hw]
      exact if_pos htest

end BinaryOp

/-! ## Functions -/

namespace Function

def type? : Function → List ValueType → Option ValueType
  | str, [_] => some .str
  | int, [t] => if t = .set then none else some .int
  | float, [t] => if t = .set then none else some .float
  | bool, [t] => if t = .float ∨ t = .set then none else some .bool
  | strlen, [.str] => some .int
  | upper, [.str] => some .str
  | lower, [.str] => some .str
  | trim, [.str] => some .str
  | substr, [.str, .int] => some .str
  | substr, [.str, .int, .int] => some .str
  | abs, [t] => if t.isNumber then some t else none
  | round, [t] => if t.isNumber then some .int else none
  | contains, [haystack, needle] => BinaryOp.mem.type? needle haystack
  | set, _ => some .set
  | size, [.set] => some .int
  | size, [.str] => some .int
  | _, _ => none

variable {f : Function} {v w : Value}

theorem type_of_fromFloat {x : Float} {n : Int} (h : f.fromFloat x n = .ok w) :
    w.type = .int := by
  simp only [fromFloat] at h
  split at h
  · cases h
    rfl
  · cases h

theorem type?_of_toInt (h : toInt v = .ok w) : int.type? [v.type] = some w.type := by
  cases v with
  | float x =>
      simp only [toInt] at h
      split at h
      · rw [type_of_fromFloat h]
        rfl
      · cases h
  | str s =>
      simp only [toInt] at h
      split at h
      · cases h
        rfl
      · cases h
  | set s => cases h
  | _ =>
      cases h
      rfl

theorem type?_of_toFloat (h : toFloat v = .ok w) : float.type? [v.type] = some w.type := by
  cases v with
  | str s =>
      simp only [toFloat] at h
      split at h
      · cases h
        rfl
      · cases h
  | set s => cases h
  | _ =>
      cases h
      rfl

theorem type?_of_toBool (h : toBool v = .ok w) : bool.type? [v.type] = some w.type := by
  cases v with
  | str s =>
      simp only [toBool] at h
      split at h
      · cases h
        rfl
      · split at h
        · cases h
          rfl
        · cases h
  | float x => cases h
  | set s => cases h
  | _ =>
      cases h
      rfl

theorem type?_of_toAbs (h : toAbs v = .ok w) : abs.type? [v.type] = some w.type := by
  unfold toAbs at h
  -- whether a number fits is kept from being computed, which would count the bound down to zero
  obtain ⟨fits, hfits⟩ : ∃ fits, fits = Decimal.int64? := ⟨_, rfl⟩
  rw [← hfits] at h
  split at h
  · split at h
    · cases h
      rfl
    · cases h
  · cases h
    rfl
  · cases h

theorem type?_of_toRound (h : toRound v = .ok w) : round.type? [v.type] = some w.type := by
  cases v with
  | int n =>
      cases h
      rfl
  | float x =>
      simp only [toRound] at h
      split at h
      · rw [type_of_fromFloat h]
        rfl
      · cases h
  | _ => cases h

theorem type?_of_toSize (h : toSize v = .ok w) : size.type? [v.type] = some w.type := by
  cases v with
  | str s | set s =>
      cases h
      rfl
  | _ => cases h

theorem type_of_string {s : String} (h : f.string v = .ok s) : v.type = .str := by
  cases v with
  | str s => rfl
  | _ => cases h

theorem type?_of_text {t : ValueType} {g : String → Value} (hf : f.type? [.str] = some t)
    (hg : ∀ s, (g s).type = t) (h : (f.string v).map g = .ok w) :
    f.type? [v.type] = some w.type := by
  obtain ⟨s, hs, rfl⟩ := exists_of_map_eq_ok h
  rw [type_of_string hs, hf, hg s]

theorem type_of_index {n : Nat} (h : index v = .ok n) : v.type = .int := by
  cases v with
  | int n => rfl
  | _ => cases h

theorem type?_of_toSubstr {start : Value} {len : Option Value}
    (h : toSubstr v start len = .ok w) :
    substr.type? (v.type :: start.type :: (len.map Value.type).toList) = some w.type := by
  obtain ⟨s, hs, h⟩ := exists_of_bind_eq_ok h
  obtain ⟨n, hn, h⟩ := exists_of_bind_eq_ok h
  rw [type_of_string hs, type_of_index hn]
  cases len with
  | none =>
      cases h
      rfl
  | some k =>
      obtain ⟨m, hm, h⟩ := exists_of_bind_eq_ok h
      cases h
      show substr.type? [.str, .int, k.type] = _
      rw [type_of_index hm]
      rfl

/-- The value of a function has the type that its table gives. -/
theorem type?_of_apply {args : List Value} (h : f.apply args = .ok w) :
    f.type? (args.map Value.type) = some w.type := by
  simp only [apply] at h
  split at h
  · cases h
    rfl
  · exact type?_of_toInt h
  · exact type?_of_toFloat h
  · exact type?_of_toBool h
  · exact type?_of_text rfl (fun _ => rfl) h
  · exact type?_of_text rfl (fun _ => rfl) h
  · exact type?_of_text rfl (fun _ => rfl) h
  · exact type?_of_text rfl (fun _ => rfl) h
  · exact type?_of_toSubstr h
  · exact type?_of_toSubstr h
  · exact type?_of_toAbs h
  · exact type?_of_toRound h
  · obtain ⟨b, hb, rfl⟩ := exists_of_map_eq_ok h
    exact if_pos (Value.isTestOf_of_member hb)
  · cases h
    rfl
  · exact type?_of_toSize h
  · cases h

end Function

/-! ## Expressions -/

namespace Expr

mutual

def type? (names : String → Option ValueType) : Expr → Option ValueType
  | literal v => some v.type
  | .name s => names s
  | unary op operand => (type? names operand).bind op.type?
  | binary op left right =>
    (type? names left).bind fun l =>
      match op.decidedBy with
      | none => (type? names right).bind (op.type? l)
      | some _ => if l = .bool then some .bool else none
  | call s args =>
    if s = "defined" then some .bool
    else (Function.ofName? s).bind fun f => (types? names args).bind f.type?
  | set items => (types? names items).map fun _ => .set

def types? (names : String → Option ValueType) : List Expr → Option (List ValueType)
  | [] => some []
  | e :: es => (type? names e).bind fun t => (types? names es).map (t :: ·)

end

/-- No call among some expressions is answered by the host: it asks for a definition, is of a
function of the language, or is of one that the host does not know. -/
def AvoidsHost (host : Host σ) (es : List Expr) : Prop :=
  ∀ s args, .call s args ∈ es → s = "defined" ∨ (Function.ofName? s).isSome = true ∨
    ∀ state, host.knowsFunction state s args.length = false

/-- The host answers no call among some expressions, and the names among them have values of the
given types, if any. -/
structure Suits (host : Host σ) (env : Environment) (site : Site)
    (names : String → Option ValueType) (es : List Expr) : Prop where
  avoids : AvoidsHost host es
  typed : ∀ s, .name s ∈ es → ∀ v, env.resolve s site = .ok v → names s = some v.type

variable {host : Host σ} {env : Environment} {site : Site} {names : String → Option ValueType}

theorem Suits.mono {es es' : List Expr} (h : Suits host env site names es)
    (hsub : ∀ e ∈ es', e ∈ es) : Suits host env site names es' where
  avoids s args hcall := h.avoids s args (hsub _ hcall)
  typed s hname := h.typed s (hsub _ hname)

theorem Suits.tail {e : Expr} {es : List Expr} (h : Suits host env site names (e :: es)) :
    Suits host env site names es :=
  h.mono fun _ => List.mem_cons_of_mem e

theorem Suits.left {es es' : List Expr} (h : Suits host env site names (es ++ es')) :
    Suits host env site names es :=
  h.mono fun _ => List.mem_append_left es'

theorem Suits.right {es es' : List Expr} (h : Suits host env site names (es ++ es')) :
    Suits host env site names es' :=
  h.mono fun _ => List.mem_append_right es

theorem type_of_logical {op : BinaryOp} {decisive : Bool} (hop : op.decidedBy = some decisive)
    {left right : Expr} {l v : Value} {s s₁ s' : σ}
    (hl : (left.eval host env site).run s = (.ok l, s₁))
    (h : ((binary op left right).eval host env site).run s = (.ok v, s')) :
    l.type = .bool ∧ v.type = .bool := by
  rw [eval, run_bind_of_ok hl, hop] at h
  dsimp only at h
  cases l with
  | bool b =>
      refine ⟨rfl, ?_⟩
      simp only [Value.bool?] at h
      split at h
      · cases h
        rfl
      · obtain ⟨r, s₂, -, h⟩ := exists_of_run_bind_eq_ok h
        cases r with
        | bool c =>
            cases h
            rfl
        | _ => cases h
  | _ => cases h

theorem type_of_evalDefined {args : List Expr} {v : Value}
    (h : evalDefined env site args = .ok v) : v.type = .bool := by
  simp only [evalDefined] at h
  split at h
  · cases h
    rfl
  · cases h

mutual

/-- A value that is found has the type of its expression. -/
theorem type?_of_eval : ∀ {e : Expr} {s s' : σ} {v : Value}, Suits host env site names e.parts →
    (e.eval host env site).run s = (.ok v, s') → e.type? names = some v.type
  | literal w, s, s', v, _, h => by
      cases h
      rfl
  | .name x, s, s', v, hsuits, h =>
      hsuits.typed x (self_mem_parts _) v (congrArg Prod.fst h)
  | unary op operand, s, s', v, hsuits, h => by
      rw [eval] at h
      obtain ⟨w, s₁, hw, h⟩ := exists_of_run_bind_eq_ok h
      rw [type?, type?_of_eval hsuits.tail hw]
      exact UnaryOp.type?_of_apply (congrArg Prod.fst h)
  | binary op left right, s, s', v, hsuits, h => by
      have hwhole := h
      rw [eval] at h
      obtain ⟨l, s₁, hl, h⟩ := exists_of_run_bind_eq_ok h
      rw [type?, type?_of_eval hsuits.tail.left hl, Option.bind_some]
      cases hop : op.decidedBy with
      | none =>
          rw [hop] at h
          obtain ⟨r, s₂, hr, h⟩ := exists_of_run_bind_eq_ok h
          show (right.type? names).bind (op.type? l.type) = _
          rw [type?_of_eval hsuits.tail.right hr]
          exact BinaryOp.type?_of_apply (congrArg Prod.fst h)
      | some decisive =>
          obtain ⟨hbool, hv⟩ := type_of_logical hop hl hwhole
          rw [hv]
          exact if_pos hbool
  | call x args, s, s', v, hsuits, h => by
      rw [eval] at h
      rw [type?]
      by_cases hdefined : x = "defined"
      · rw [if_pos hdefined] at h ⊢
        rw [type_of_evalDefined (congrArg Prod.fst h)]
      · rw [if_neg hdefined] at h ⊢
        cases hname : Function.ofName? x with
        | some f =>
            rw [hname] at h
            obtain ⟨vs, s₁, hvs, h⟩ := exists_of_run_bind_eq_ok h
            rw [Option.bind_some, types?_of_evalAll hsuits.tail hvs]
            exact Function.type?_of_apply (congrArg Prod.fst h)
        | none =>
            -- the host does not know the function, so there is no value
            rw [hname] at h
            obtain ⟨known, s₁, hask, h⟩ := exists_of_run_bind_eq_ok h
            have hunknown : known = false := by
              rcases hsuits.avoids x args (self_mem_parts _) with hx | hx | hx
              · exact absurd hx hdefined
              · rw [hname] at hx
                cases hx
              · cases hask
                exact hx s
            rw [hunknown] at h
            cases h
  | set items, s, s', v, hsuits, h => by
      rw [eval] at h
      obtain ⟨vs, s₁, hvs, h⟩ := exists_of_run_bind_eq_ok h
      cases h
      rw [type?, types?_of_evalAll hsuits.tail hvs]
      rfl

theorem types?_of_evalAll : ∀ {es : List Expr} {s s' : σ} {vs : List Value},
    Suits host env site names (partsOf es) →
    (evalAll host env site es).run s = (.ok vs, s') → types? names es = some (vs.map Value.type)
  | [], s, s', vs, _, h => by
      cases h
      rfl
  | e :: es, s, s', vs, hsuits, h => by
      rw [evalAll] at h
      obtain ⟨v, s₁, hv, h⟩ := exists_of_run_bind_eq_ok h
      obtain ⟨more, s₂, hmore, h⟩ := exists_of_run_bind_eq_ok h
      cases h
      rw [types?, type?_of_eval hsuits.left hv, types?_of_evalAll hsuits.right hmore]
      rfl

end

/-- Two look-ups have values of one type, or both have none. -/
inductive AlikeInType : Except EvalError Value → Except EvalError Value → Prop
  | values {v w : Value} : v.type = w.type → AlikeInType (.ok v) (.ok w)
  | errors {err err' : EvalError} : AlikeInType (.error err) (.error err')

theorem AlikeInType.type_of_ok {r : Except EvalError Value} {w : Value}
    (h : AlikeInType r (.ok w)) : r.toOption.map Value.type = some w.type := by
  cases h with
  | values htype => exact congrArg some htype

/-- The type of a value does not depend on values.  If an expression in which the host has no part
has a value in two environments and at two places that give each of its names values of one type, or
none in both, then the two values have one type. -/
theorem type_eq_of_eval {τ : Type} {e : Expr} {host : Host σ} {host' : Host τ}
    {env env' : Environment} {site site' : Site} {s : σ} {t : τ} {v w : Value}
    (havoids : AvoidsHost host e.parts) (havoids' : AvoidsHost host' e.parts)
    (hnames : ∀ x, .name x ∈ e.parts →
      AlikeInType (env.resolve x site) (env'.resolve x site'))
    (hv : outcome host env site s e = .ok v) (hw : outcome host' env' site' t e = .ok w) :
    v.type = w.type := by
  -- the types of the names in the first environment are their types in both
  let names : String → Option ValueType :=
    fun x => (env.resolve x site).toOption.map Value.type
  have hsuits : Suits host env site names e.parts := by
    refine ⟨havoids, fun x _ u hu => ?_⟩
    show (env.resolve x site).toOption.map Value.type = some u.type
    rw [hu]
    rfl
  have hsuits' : Suits host' env' site' names e.parts := by
    refine ⟨havoids', fun x hx u hu => ?_⟩
    have halike := hnames x hx
    rw [hu] at halike
    exact halike.type_of_ok
  have htype : e.type? names = some v.type := type?_of_eval hsuits (Prod.ext hv rfl)
  have htype' : e.type? names = some w.type := type?_of_eval hsuits' (Prod.ext hw rfl)
  exact Option.some.inj (htype.symm.trans htype')

/-- A sum whose right part leaves alone an operand without a value, in two environments. -/
theorem type_eq_of_skippedOperand :
    let env : Environment := ⟨[.frozen "global" [("n", .int (-3)), ("flag", .bool true)]], false⟩
    let env' : Environment := ⟨[.store "local" [("flag", .bool true), ("n", .int 4)]], false⟩
    let site : Site := ⟨⟨"main.c"⟩, 0⟩
    let e : Expr := .binary .add (.call "abs" [.name "n"])
      (.call "int" [.binary .or (.name "flag") (.name "missing")])
    AvoidsHost (Host.declining Unit) e.parts ∧
      (∀ x, .name x ∈ e.parts → AlikeInType (env.resolve x site) (env'.resolve x site)) ∧
      outcome (Host.declining Unit) env site () e = .ok (.int 4) ∧
      outcome (Host.declining Unit) env' site () e = .ok (.int 5) ∧
      (Value.int 4).type = (Value.int 5).type := by
  intro env env' site e
  have havoids : AvoidsHost (Host.declining Unit) e.parts := by
    intro s args hcall
    simp only [e, parts, partsOf, List.mem_cons, List.mem_append, List.not_mem_nil, or_false,
      false_or, reduceCtorEq, call.injEq] at hcall
    rcases hcall with ⟨rfl, -⟩ | ⟨rfl, -⟩
    · exact .inr (.inl (by decide +kernel))
    · exact .inr (.inl (by decide +kernel))
  have alike {x : String} {v w : Value} (hv : (env.resolve x site).toOption = some v)
      (hw : (env'.resolve x site).toOption = some w) (htype : v.type = w.type) :
      AlikeInType (env.resolve x site) (env'.resolve x site) := by
    rw [eq_ok_of_toOption hv, eq_ok_of_toOption hw]
    exact .values htype
  have hnames : ∀ x, .name x ∈ e.parts →
      AlikeInType (env.resolve x site) (env'.resolve x site) := by
    intro x hname
    simp only [e, parts, partsOf, List.mem_cons, List.mem_append, List.not_mem_nil, or_false,
      false_or, reduceCtorEq, name.injEq] at hname
    rcases hname with rfl | rfl | rfl
    · have hv : (env.resolve "n" site).toOption = some (.int (-3)) := by decide +kernel
      have hw : (env'.resolve "n" site).toOption = some (.int 4) := by decide +kernel
      exact alike hv hw rfl
    · have hv : (env.resolve "flag" site).toOption = some (.bool true) := by decide +kernel
      have hw : (env'.resolve "flag" site).toOption = some (.bool true) := by decide +kernel
      exact alike hv hw rfl
    · have hv : (env.resolve "missing" site).toOption = none := by decide +kernel
      have hw : (env'.resolve "missing" site).toOption = none := by decide +kernel
      obtain ⟨err, herr⟩ := exists_error_of_toOption hv
      obtain ⟨err', herr'⟩ := exists_error_of_toOption hw
      rw [herr, herr']
      exact .errors
  have hv : outcome (Host.declining Unit) env site () e = .ok (.int 4) :=
    eq_ok_of_toOption (by decide +kernel)
  have hw : outcome (Host.declining Unit) env' site () e = .ok (.int 5) :=
    eq_ok_of_toOption (by decide +kernel)
  exact ⟨havoids, hnames, hv, hw, type_eq_of_eval havoids havoids hnames hv hw⟩

end Expr

end Preprocessor
