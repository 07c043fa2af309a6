/-
Sets of strings as sets.

A set value lists its members in increasing order and each of them once, so it is known by its
members.  The operators and functions on sets compute what their names say of the members.  Whatever
expression a set comes from, it is then the one value that lists the set of strings which the
expression denotes, and the order in which the strings were put together does not show.
-/
import Mathlib.Data.List.Sort
import Mathlib.Data.Set.Card
import Mathlib.Data.String.Basic
import Preprocessor.Proofs.ResultTypes

namespace Preprocessor

variable {σ : Type}

/-! ## Members -/

namespace TextSet

def toSet (s : TextSet) : Set String :=
  {x | x ∈ s.members}

variable {s t : TextSet} {x : String}

theorem mem_toSet : x ∈ s.toSet ↔ x ∈ s.members := Iff.rfl

@[simp] theorem toSet_empty : empty.toSet = ∅ := by
  ext x
  simp [toSet, empty]

@[simp] theorem toSet_insert : (s.insert x).toSet = Insert.insert x s.toSet := by
  ext y
  exact mem_insertInto

theorem toSet_foldl_insert (xs : List String) :
    (xs.foldl insert s).toSet = s.toSet ∪ {x | x ∈ xs} := by
  induction xs generalizing s with
  | nil => simp
  | cons x xs ih =>
      rw [List.foldl_cons, ih, toSet_insert]
      ext y
      simp only [Set.mem_union, Set.mem_insert_iff, Set.mem_ofPred_eq, List.mem_cons]
      rw [or_assoc, or_left_comm]

@[simp] theorem toSet_union : (s.union t).toSet = s.toSet ∪ t.toSet :=
  toSet_foldl_insert t.members

@[simp] theorem toSet_ofList (xs : List String) : (ofList xs).toSet = {x | x ∈ xs} := by
  rw [ofList, toSet_foldl_insert, toSet_empty, Set.empty_union]

@[simp] theorem toSet_erase : (s.erase x).toSet = s.toSet \ {x} := by
  ext y
  simp [toSet, erase]

@[simp] theorem toSet_diff : (s.diff t).toSet = s.toSet \ t.toSet := by
  ext y
  simp [toSet, diff]

theorem contains_eq_true_iff : s.contains x = true ↔ x ∈ s.toSet :=
  List.contains_iff_mem

theorem nodup_members (s : TextSet) : s.members.Nodup :=
  s.increasing.imp fun h => ne_of_lt h

/-- A set is known by its members. -/
theorem eq_of_toSet_eq (h : s.toSet = t.toSet) : s = t := by
  have hmembers : s.members = t.members :=
    s.increasing.eq_of_mem_iff t.increasing fun x => Set.ext_iff.mp h x
  cases s
  cases t
  cases hmembers
  rfl

theorem ncard_toSet (s : TextSet) : s.toSet.ncard = s.size := by
  have hcoe : s.toSet = (s.members.toFinset : Set String) := by
    ext x
    simp [mem_toSet]
  rw [hcoe, Set.ncard_coe_finset, List.toFinset_card_of_nodup s.nodup_members, size]

end TextSet

/-! ## Values -/

namespace Value

/-- The value is a set that lists the strings of `S`, in increasing order and each once. -/
def Lists (v : Value) (S : Set String) : Prop :=
  ∃ s : TextSet, v = .set s ∧ s.members.Pairwise (· < ·) ∧ s.members.Nodup ∧
    ∀ x, x ∈ s.members ↔ x ∈ S

theorem lists_set_iff {s : TextSet} {S : Set String} : (set s).Lists S ↔ s.toSet = S := by
  constructor
  · rintro ⟨s, ⟨⟩, -, -, hmem⟩
    exact Set.ext hmem
  · rintro rfl
    exact ⟨s, rfl, s.increasing, s.nodup_members, fun _ => Iff.rfl⟩

/-- Two values that list the same strings are the same. -/
theorem Lists.unique {v w : Value} {S : Set String} (hv : v.Lists S) (hw : w.Lists S) : v = w := by
  obtain ⟨s, rfl, -⟩ := id hv
  obtain ⟨t, rfl, -⟩ := id hw
  rw [TextSet.eq_of_toSet_eq ((lists_set_iff.mp hv).trans (lists_set_iff.mp hw).symm)]

/-- The strings that a value brings into a set that is collected: the members of a set, the text
form of anything else. -/
def offered : Value → Set String
  | set s => s.toSet
  | v => {v.text}

end Value

theorem Function.toSet_foldl {f : TextSet → Value → TextSet}
    (hf : ∀ s v, (f s v).toSet = s.toSet ∪ v.offered) (s : TextSet) (args : List Value) :
    (args.foldl f s).toSet = s.toSet ∪ {x | ∃ v ∈ args, x ∈ v.offered} := by
  induction args generalizing s with
  | nil => simp
  | cons v args ih =>
      rw [List.foldl_cons, ih, hf, Set.union_assoc]
      ext x
      simp

theorem Function.toSet_collect (args : List Value) :
    (collect args).toSet = {x | ∃ v ∈ args, x ∈ v.offered} := by
  rw [collect, toSet_foldl, TextSet.toSet_empty, Set.empty_union]
  intro s v
  cases v <;> simp [Value.offered]

/-! ### What gives a set -/

theorem UnaryOp.apply_ne_set {op : UnaryOp} {v : Value} {A : TextSet} :
    op.apply v ≠ .ok (.set A) := by
  intro h
  have htype := UnaryOp.type?_of_apply h
  cases op <;> cases v <;> cases htype

theorem BinaryOp.exists_of_apply_eq_set {op : BinaryOp} {l r : Value} {A : TextSet}
    (h : op.apply l r = .ok (.set A)) :
    ∃ B : TextSet, l = .set B ∧
      (op = .add ∧ (∃ C, r = .set C ∧ A = B.union C) ∨
        op = .add ∧ (∃ x, r = .str x ∧ A = B.insert x) ∨
        op = .sub ∧ (∃ C, r = .set C ∧ A = B.diff C) ∨
        op = .sub ∧ (∃ x, r = .str x ∧ A = B.erase x)) := by
  have htype := BinaryOp.type?_of_apply h
  cases op with
  | add =>
      cases l with
      | set B =>
          refine ⟨B, rfl, ?_⟩
          cases r with
          | set C =>
              cases h
              exact .inl ⟨rfl, C, rfl, rfl⟩
          | str x =>
              cases h
              exact .inr (.inl ⟨rfl, x, rfl, rfl⟩)
          | _ => cases htype
      | _ => cases r <;> cases htype
  | sub =>
      cases l with
      | set B =>
          refine ⟨B, rfl, ?_⟩
          cases r with
          | set C =>
              cases h
              exact .inr (.inr (.inl ⟨rfl, C, rfl, rfl⟩))
          | str x =>
              cases h
              exact .inr (.inr (.inr ⟨rfl, x, rfl, rfl⟩))
          | _ => cases htype
      | _ => cases r <;> cases htype
  | mul | div | rem => cases l <;> cases r <;> cases htype
  | _ =>
      rcases ite_eq_iff.mp htype with ⟨-, hbool⟩ | ⟨-, hnone⟩
      · cases hbool
      · cases hnone

/-- Of the functions only `set` gives a set. -/
theorem Function.eq_set_of_apply {f : Function} {args : List Value} {A : TextSet}
    (h : f.apply args = .ok (.set A)) : f = .set := by
  have htype := Function.type?_of_apply h
  generalize args.map Value.type = types at htype
  unfold type? at htype
  split at htype
  all_goals first | rfl | cases htype | skip
  -- what is left looks at the type of its argument, and only the absolute value returns it
  all_goals
    rcases ite_eq_iff.mp htype with ⟨hnumber, hresult⟩ | ⟨-, hresult⟩ <;> cases hresult
  cases hnumber

/-! ## Expressions -/

namespace Expr

/-- The set of strings that an expression denotes, and the state of the host after it. -/
inductive Collects (host : Host σ) (env : Environment) (site : Site) :
    Expr → σ → Set String → σ → Prop where
  | literal {A : TextSet} {s : σ} : Collects host env site (.literal (.set A)) s A.toSet s
  | name {x : String} {A : TextSet} {s : σ} (h : env.resolve x site = .ok (.set A)) :
      Collects host env site (.name x) s A.toSet s
  | union {left right : Expr} {S T : Set String} {s s₁ s₂ : σ}
      (hl : Collects host env site left s S s₁) (hr : Collects host env site right s₁ T s₂) :
      Collects host env site (.binary .add left right) s (S ∪ T) s₂
  | insertion {left right : Expr} {S : Set String} {x : String} {s s₁ s₂ : σ}
      (hl : Collects host env site left s S s₁)
      (hr : (right.eval host env site).run s₁ = (.ok (.str x), s₂)) :
      Collects host env site (.binary .add left right) s (insert x S) s₂
  | difference {left right : Expr} {S T : Set String} {s s₁ s₂ : σ}
      (hl : Collects host env site left s S s₁) (hr : Collects host env site right s₁ T s₂) :
      Collects host env site (.binary .sub left right) s (S \ T) s₂
  | removal {left right : Expr} {S : Set String} {x : String} {s s₁ s₂ : σ}
      (hl : Collects host env site left s S s₁)
      (hr : (right.eval host env site).run s₁ = (.ok (.str x), s₂)) :
      Collects host env site (.binary .sub left right) s (S \ {x}) s₂
  /-- A literal set has the text forms of its items. -/
  | items {items : List Expr} {vs : List Value} {s s₁ : σ}
      (h : (evalAll host env site items).run s = (.ok vs, s₁)) :
      Collects host env site (.set items) s {x | ∃ v ∈ vs, x = v.text} s₁
  /-- A set that is collected takes sets apart. -/
  | collected {args : List Expr} {vs : List Value} {s s₁ : σ}
      (h : (evalAll host env site args).run s = (.ok vs, s₁)) :
      Collects host env site (.call "set" args) s {x | ∃ v ∈ vs, x ∈ v.offered} s₁
  /-- A function of the host may give a set. -/
  | hosted {x : String} {args : List Expr} {vs : List Value} {A : TextSet} {s s₁ s₂ : σ}
      (hname : x ≠ "defined" ∧ Function.ofName? x = none)
      (hknown : host.knowsFunction s x args.length = true)
      (hargs : (evalAll host env site args).run s = (.ok vs, s₁))
      (hcall : host.call site x vs s₁ = (.ok (.set A), s₂)) :
      Collects host env site (.call x args) s A.toSet s₂

section

variable {host : Host σ} {env : Environment} {site : Site} {e : Expr} {S : Set String} {s s' : σ}

theorem run_eval_items {items : List Expr} {vs : List Value}
    (h : (evalAll host env site items).run s = (.ok vs, s')) :
    ((Expr.set items).eval host env site).run s =
      (.ok (.set (.ofList (vs.map Value.text))), s') := by
  rw [eval, run_bind_of_ok h]
  rfl

theorem run_eval_function {f : Function} {args : List Expr} {vs : List Value}
    (hf : Function.ofName? f.name = some f)
    (h : (evalAll host env site args).run s = (.ok vs, s')) :
    ((Expr.call f.name args).eval host env site).run s = (f.apply vs, s') := by
  have hdefined : f.name ≠ "defined" := by
    cases f <;> decide
  rw [eval, if_neg hdefined, hf]
  dsimp only
  rw [run_bind_of_ok h]
  rfl

theorem exists_of_collects (h : Collects host env site e s S s') :
    ∃ A : TextSet, (e.eval host env site).run s = (.ok (.set A), s') ∧ A.toSet = S := by
  induction h with
  | @literal A s => exact ⟨A, rfl, rfl⟩
  | @name x A s h =>
      refine ⟨A, ?_, rfl⟩
      rw [eval, h]
      rfl
  | union hl hr ihl ihr =>
      obtain ⟨A, hA, rfl⟩ := ihl
      obtain ⟨B, hB, rfl⟩ := ihr
      exact ⟨A.union B, run_eval_binary rfl hA hB, TextSet.toSet_union⟩
  | @insertion left right S x s s₁ s₂ hl hr ihl =>
      obtain ⟨A, hA, rfl⟩ := ihl
      exact ⟨A.insert x, run_eval_binary rfl hA hr, TextSet.toSet_insert⟩
  | difference hl hr ihl ihr =>
      obtain ⟨A, hA, rfl⟩ := ihl
      obtain ⟨B, hB, rfl⟩ := ihr
      exact ⟨A.diff B, run_eval_binary rfl hA hB, TextSet.toSet_diff⟩
  | @removal left right S x s s₁ s₂ hl hr ihl =>
      obtain ⟨A, hA, rfl⟩ := ihl
      exact ⟨A.erase x, run_eval_binary rfl hA hr, TextSet.toSet_erase⟩
  | @items items vs s s₁ h =>
      refine ⟨_, run_eval_items h, ?_⟩
      rw [TextSet.toSet_ofList]
      ext x
      simp [eq_comm]
  | @collected args vs s s₁ h =>
      exact ⟨_, run_eval_function (f := .set) rfl h, Function.toSet_collect vs⟩
  | @hosted x args vs A s s₁ s₂ hname hknown hargs hcall =>
      refine ⟨A, ?_, rfl⟩
      have hask :
          (Hosted.ask (host.knowsFunction · x args.length) : Hosted σ EvalError Bool).run s =
            (.ok true, s) := by
        rw [← hknown]
        rfl
      rw [eval, if_neg hname.1, hname.2]
      dsimp only
      rw [run_bind_of_ok hask, if_pos rfl, run_bind_of_ok hargs]
      exact hcall

theorem collects_of_eval : ∀ {e : Expr} {s s' : σ} {A : TextSet},
    (e.eval host env site).run s = (.ok (.set A), s') → Collects host env site e s A.toSet s'
  | literal v, s, s', A, h => by
      cases h
      exact .literal
  | .name x, s, s', A, h => by
      have hstate : s' = s := (congrArg Prod.snd h).symm
      rw [hstate]
      exact .name (congrArg Prod.fst h)
  | unary op operand, s, s', A, h => by
      rw [eval] at h
      obtain ⟨v, s₁, hv, h⟩ := exists_of_run_bind_eq_ok h
      exact absurd (congrArg Prod.fst h) UnaryOp.apply_ne_set
  | binary op left right, s, s', A, h => by
      have hwhole := h
      rw [eval] at h
      obtain ⟨l, s₁, hl, h⟩ := exists_of_run_bind_eq_ok h
      cases hop : op.decidedBy with
      | some decisive => cases (type_of_logical hop hl hwhole).2
      | none =>
          rw [hop] at h
          obtain ⟨r, s₂, hr, h⟩ := exists_of_run_bind_eq_ok h
          have hstate : s₂ = s' := congrArg Prod.snd h
          subst hstate
          obtain ⟨B, rfl, hcases⟩ := BinaryOp.exists_of_apply_eq_set (congrArg Prod.fst h)
          rcases hcases with ⟨rfl, C, rfl, rfl⟩ | ⟨rfl, x, rfl, rfl⟩ | ⟨rfl, C, rfl, rfl⟩ |
            ⟨rfl, x, rfl, rfl⟩
          · rw [TextSet.toSet_union]
            exact .union (collects_of_eval hl) (collects_of_eval hr)
          · rw [TextSet.toSet_insert]
            exact .insertion (collects_of_eval hl) hr
          · rw [TextSet.toSet_diff]
            exact .difference (collects_of_eval hl) (collects_of_eval hr)
          · rw [TextSet.toSet_erase]
            exact .removal (collects_of_eval hl) hr
  | call x args, s, s', A, h => by
      rw [eval] at h
      by_cases hdefined : x = "defined"
      · rw [if_pos hdefined] at h
        cases type_of_evalDefined (congrArg Prod.fst h)
      · rw [if_neg hdefined] at h
        cases hname : Function.ofName? x with
        | some f =>
            rw [hname] at h
            obtain ⟨vs, s₁, hvs, h⟩ := exists_of_run_bind_eq_ok h
            obtain rfl := Function.eq_set_of_apply (congrArg Prod.fst h)
            have hx : x = "set" := by
              have hfound := List.find?_some hname
              exact (beq_iff_eq.mp hfound).symm
            cases h
            rw [hx, Function.toSet_collect]
            exact .collected hvs
        | none =>
            rw [hname] at h
            obtain ⟨known, s₁, hask, h⟩ := exists_of_run_bind_eq_ok h
            cases hask
            dsimp only at h
            split at h
            · next hknown =>
              obtain ⟨vs, s₂, hvs, hcall⟩ := exists_of_run_bind_eq_ok h
              exact .hosted ⟨hdefined, hname⟩ hknown hvs hcall
            · cases h
  | set items, s, s', A, h => by
      rw [eval] at h
      obtain ⟨vs, s₁, hvs, h⟩ := exists_of_run_bind_eq_ok h
      cases h
      have hset : (TextSet.ofList (vs.map Value.text)).toSet = {x | ∃ v ∈ vs, x = v.text} := by
        rw [TextSet.toSet_ofList]
        ext x
        simp [eq_comm]
      rw [hset]
      exact .items hvs

/-- An expression denotes a set of strings if and only if its value lists them. -/
theorem collects_iff :
    Collects host env site e s S s' ↔
      ∃ v : Value, (e.eval host env site).run s = (.ok v, s') ∧ v.Lists S := by
  constructor
  · intro h
    obtain ⟨A, hrun, hA⟩ := exists_of_collects h
    exact ⟨.set A, hrun, Value.lists_set_iff.mpr hA⟩
  · rintro ⟨v, hrun, hv⟩
    obtain ⟨A, rfl, -⟩ := id hv
    rw [← Value.lists_set_iff.mp hv]
    exact collects_of_eval hrun

end

end Expr

/-! ## The algebra of sets -/

open Preprocessor.Expr

/-- Sets are known by their members.  The operators and functions on sets give sets in increasing
order without repetition, with the members that the algebra of sets says; the tests and the size
are those of the members.  Expressions that denote the same strings have the same value, and with
it the same text form. -/
theorem sets_known_by_members (host : Host σ) (env : Environment) (site : Site) :
    (∀ (A B : TextSet) (x : String),
      (∃ v, BinaryOp.add.apply (.set A) (.set B) = .ok v ∧ v.Lists (A.toSet ∪ B.toSet)) ∧
      (∃ v, BinaryOp.add.apply (.set A) (.str x) = .ok v ∧ v.Lists (insert x A.toSet)) ∧
      (∃ v, BinaryOp.sub.apply (.set A) (.set B) = .ok v ∧ v.Lists (A.toSet \ B.toSet)) ∧
      (∃ v, BinaryOp.sub.apply (.set A) (.str x) = .ok v ∧ v.Lists (A.toSet \ {x})) ∧
      (∃ b, BinaryOp.mem.apply (.str x) (.set A) = .ok (.bool b) ∧ (b = true ↔ x ∈ A.toSet)) ∧
      (∃ b, Function.contains.apply [.set A, .str x] = .ok (.bool b) ∧
        (b = true ↔ x ∈ A.toSet)) ∧
      (∃ b, BinaryOp.eq.apply (.set A) (.set B) = .ok (.bool b) ∧
        (b = true ↔ A.toSet = B.toSet)) ∧
      Function.size.apply [.set A] = .ok (.int (Int64.ofNat A.toSet.ncard))) ∧
    (∀ vs : List Value,
      ∃ v, Function.set.apply vs = .ok v ∧ v.Lists {x | ∃ w ∈ vs, x ∈ w.offered}) ∧
    (∀ (items : List Expr) (vs : List Value) (s s' : σ),
      (evalAll host env site items).run s = (.ok vs, s') →
      ∃ v : Value, ((Expr.set items).eval host env site).run s = (.ok v, s') ∧
        v.Lists {x | ∃ w ∈ vs, x = w.text}) ∧
    (∀ (e : Expr) (S : Set String) (s s' : σ),
      Collects host env site e s S s' ↔
        ∃ v : Value, (e.eval host env site).run s = (.ok v, s') ∧ v.Lists S) ∧
    ∀ (e₁ e₂ : Expr) (S : Set String) (s₁ s₁' s₂ s₂' : σ),
      Collects host env site e₁ s₁ S s₁' → Collects host env site e₂ s₂ S s₂' →
      ∃ v : Value, (e₁.eval host env site).run s₁ = (.ok v, s₁') ∧
        (e₂.eval host env site).run s₂ = (.ok v, s₂') := by
  refine ⟨fun A B x => ⟨⟨_, rfl, ?_⟩, ⟨_, rfl, ?_⟩, ⟨_, rfl, ?_⟩, ⟨_, rfl, ?_⟩,
    ⟨_, rfl, TextSet.contains_eq_true_iff⟩, ⟨_, rfl, TextSet.contains_eq_true_iff⟩,
    ⟨_, rfl, ?_⟩, ?_⟩, fun vs => ⟨_, rfl, ?_⟩, fun items vs s s' hitems => ?_,
    fun e S s s' => collects_iff, fun e₁ e₂ S s₁ s₁' s₂ s₂' h₁ h₂ => ?_⟩
  · exact Value.lists_set_iff.mpr TextSet.toSet_union
  · exact Value.lists_set_iff.mpr TextSet.toSet_insert
  · exact Value.lists_set_iff.mpr TextSet.toSet_diff
  · exact Value.lists_set_iff.mpr TextSet.toSet_erase
  · rw [beq_iff_eq]
    exact ⟨congrArg TextSet.toSet, TextSet.eq_of_toSet_eq⟩
  · rw [TextSet.ncard_toSet]
    rfl
  · exact Value.lists_set_iff.mpr (Function.toSet_collect vs)
  · exact collects_iff.mp (.items hitems)
  · obtain ⟨v, hv, hlists⟩ := collects_iff.mp h₁
    obtain ⟨w, hw, hlists'⟩ := collects_iff.mp h₂
    rw [hlists'.unique hlists] at hw
    exact ⟨v, hv, hw⟩

end Preprocessor
