/-
Layers after any history of writes.

A chain of layers answers by the first hit, and writes go to the first layer that takes them.  What
a name has after a history of writes is therefore decided by the layers in front of that one, then
by the last write for the name, and only then by the layers behind.  No other layer changes, and a
chain in which no layer takes writes refuses all of them.
-/
import Preprocessor.Proofs.LineMirroring
import Preprocessor.Proofs.NameReading

namespace Preprocessor

/-! ## Variables -/

namespace Variables

variable {name other : String}

theorem get?_set_of_ne (h : other ≠ name) (v : Value) (vars : Variables) :
    (vars.set name v).get? other = vars.get? other := by
  induction vars with
  | nil => simp [set, get?, List.lookup_cons, beq_false_of_ne h]
  | cons d rest ih =>
      rcases d with ⟨n, w⟩
      rw [set]
      by_cases hn : n = name
      · subst hn
        simp [get?, List.lookup_cons, beq_false_of_ne h]
      · rw [if_neg (by simpa using hn), get?, get?, List.lookup_cons, List.lookup_cons]
        rw [get?, get?] at ih
        rw [ih]

theorem get?_erase (name : String) (vars : Variables) : (vars.erase name).get? name = none := by
  refine List.lookup_eq_none_iff.mpr fun d hd => ?_
  have hother : (d.1 != name) = true := (List.mem_filter.mp hd).2
  exact bne_iff_ne.mpr (bne_iff_ne.mp hother).symm

theorem get?_erase_of_ne (h : other ≠ name) (vars : Variables) :
    (vars.erase name).get? other = vars.get? other := by
  induction vars with
  | nil => rfl
  | cons d rest ih =>
      rcases d with ⟨n, w⟩
      rw [erase, get?] at ih ⊢
      by_cases hn : n = name
      · subst hn
        rw [List.filter_cons_of_neg (by simp), ih, get?, get?, List.lookup_cons,
          beq_false_of_ne h]
      · rw [List.filter_cons_of_pos (by simpa using hn), get?, List.lookup_cons, ih,
          List.lookup_cons, get?]

end Variables

/-! ## Writes -/

/-- A write to the variables of an environment. -/
inductive Write where
  | assign (name : String) (v : Value)
  | remove (name : String)

namespace Write

def name : Write → String
  | assign name _ => name
  | remove name => name

/-- The environment that a write makes, if a layer takes it. -/
def change : Write → Environment → Except EvalError Environment
  | assign name v, env => env.assign name v
  | remove name, env => (env.remove name).map (·.2)

/-- What a write makes of the variables of a layer that takes it. -/
def rewrite : Write → Variables → Variables
  | assign name v, vars => vars.set name v
  | remove name, vars => vars.erase name

def last? (name : String) (writes : List Write) : Option Write :=
  (writes.filter (·.name == name)).getLast?

/-- What a name has by the last write for it: what it had at the start if there was none, and what
is found behind if it was removed. -/
def found (start behind : Option Value) : Option Write → Option Value
  | none => start
  | some (assign _ v) => some v
  | some (remove _) => behind

theorem last?_concat (name : String) (writes : List Write) (write : Write) :
    last? name (writes ++ [write]) =
      if write.name = name then some write else last? name writes := by
  by_cases h : write.name = name <;> simp [last?, h]

theorem get?_rewrite_self (write : Write) (vars : Variables) :
    (write.rewrite vars).get? write.name = found none none (some write) := by
  cases write with
  | assign name v => exact Variables.get?_set name v vars
  | remove name => exact Variables.get?_erase name vars

theorem get?_rewrite_of_ne {write : Write} {name : String} (h : write.name ≠ name)
    (vars : Variables) : (write.rewrite vars).get? name = vars.get? name := by
  cases write with
  | assign n v => exact Variables.get?_set_of_ne h.symm v vars
  | remove n => exact Variables.get?_erase_of_ne h.symm vars

def rewriteAll (writes : List Write) (vars : Variables) : Variables :=
  writes.foldl (fun vars write => write.rewrite vars) vars

theorem rewriteAll_concat (writes : List Write) (write : Write) (vars : Variables) :
    rewriteAll (writes ++ [write]) vars = write.rewrite (rewriteAll writes vars) :=
  List.foldl_concat ..

/-- Of a history, a name keeps the last write for it. -/
theorem get?_rewriteAll (name : String) (writes : List Write) (vars : Variables) :
    (rewriteAll writes vars).get? name = found (vars.get? name) none (last? name writes) := by
  induction writes using List.reverseRecOn with
  | nil => rfl
  | append_singleton writes write ih =>
      rw [rewriteAll_concat, last?_concat]
      by_cases h : write.name = name
      · rw [if_pos h, ← h, get?_rewrite_self]
        cases write <;> rfl
      · rw [if_neg h, get?_rewrite_of_ne h, ih]

end Write

/-! ## Layers -/

namespace Environment

variable {env : Environment} {front back : List Layer} {label : String} {vars : Variables}

theorem splitWritable_append {w : Layer} (hfront : ∀ layer ∈ front, layer.isWritable = false)
    (hw : w.isWritable = true) : splitWritable (front ++ w :: back) = some (front, w, back) := by
  induction front with
  | nil => rw [List.nil_append, splitWritable, if_pos hw]
  | cons layer front ih =>
      have hlayer : layer.isWritable = false := hfront layer List.mem_cons_self
      have hrest := ih fun layer' h => hfront layer' (List.mem_cons_of_mem layer h)
      rw [List.cons_append, splitWritable, if_neg (by rw [hlayer]; decide), hrest]
      rfl

theorem splitWritable_eq_none {layers : List Layer}
    (h : ∀ layer ∈ layers, layer.isWritable = false) : splitWritable layers = none := by
  induction layers with
  | nil => rfl
  | cons layer rest ih =>
      have hlayer : layer.isWritable = false := h layer List.mem_cons_self
      have hrest := ih fun layer' h' => h layer' (List.mem_cons_of_mem layer h')
      rw [splitWritable, if_neg (by rw [hlayer]; decide), hrest]
      rfl

/-- The environment after a history of writes, those that fail changing nothing. -/
def after (env : Environment) (writes : List Write) : Environment :=
  writes.foldl (fun env write => (write.change env).toOption.getD env) env

theorem after_concat (env : Environment) (writes : List Write) (write : Write) :
    env.after (writes ++ [write]) =
      (write.change (env.after writes)).toOption.getD (env.after writes) :=
  List.foldl_concat ..

section Taken

variable (hfront : ∀ layer ∈ front, layer.isWritable = false)

include hfront

theorem assign_of_layers (hlayers : env.layers = front ++ .store label vars :: back)
    (name : String) (v : Value) :
    env.assign name v =
      .ok { env with layers := front ++ .store label (vars.set name v) :: back } := by
  rw [assign, hlayers, splitWritable_append hfront rfl]
  rfl

theorem remove_of_layers (hlayers : env.layers = front ++ .store label vars :: back)
    (name : String) :
    env.remove name =
      .ok (vars.get? name,
        { env with layers := front ++ .store label (vars.erase name) :: back }) := by
  rw [remove, hlayers, splitWritable_append hfront rfl]
  rfl

theorem change_of_layers (hlayers : env.layers = front ++ .store label vars :: back)
    (write : Write) :
    write.change env =
      .ok { env with layers := front ++ .store label (write.rewrite vars) :: back } := by
  cases write with
  | assign name v => exact assign_of_layers hfront hlayers name v
  | remove name =>
      rw [Write.change, remove_of_layers hfront hlayers]
      rfl

/-- A history changes one layer, the first that takes writes. -/
theorem after_of_layers (hlayers : env.layers = front ++ .store label vars :: back)
    (writes : List Write) :
    env.after writes =
      { env with layers := front ++ .store label (Write.rewriteAll writes vars) :: back } := by
  induction writes using List.reverseRecOn with
  | nil =>
      rw [after, List.foldl_nil, Write.rewriteAll, List.foldl_nil, ← hlayers]
  | append_singleton writes write ih =>
      have hlayers' : (env.after writes).layers =
          front ++ .store label (Write.rewriteAll writes vars) :: back := by
        rw [ih]
      rw [after_concat, change_of_layers hfront hlayers' write, Write.rewriteAll_concat, ih]
      rfl

end Taken

section Refused

variable (hfrozen : ∀ layer ∈ env.layers, layer.isWritable = false)

include hfrozen

theorem assign_of_frozen (name : String) (v : Value) :
    env.assign name v = .error (env.notWritable name) := by
  rw [assign, splitWritable_eq_none hfrozen]

theorem remove_of_frozen (name : String) : env.remove name = .error (env.notWritable name) := by
  rw [remove, splitWritable_eq_none hfrozen]

theorem after_of_frozen (writes : List Write) : env.after writes = env := by
  induction writes using List.reverseRecOn with
  | nil => rfl
  | append_singleton writes write ih =>
      rw [after_concat, ih]
      cases write with
      | assign name v =>
          rw [Write.change, assign_of_frozen hfrozen]
          rfl
      | remove name =>
          rw [Write.change, remove_of_frozen hfrozen]
          rfl

end Refused

theorem run_change_write {σ : Type} (e : Engine σ) (write : Write) :
    ((EngineM.change write.change : EngineM σ Unit).run e).2 =
      { e with env := (write.change e.env).toOption.getD e.env } := by
  cases h : write.change e.env with
  | error err =>
      rw [EngineM.run_change_of_error h]
      rfl
  | ok env =>
      rw [EngineM.run_change_of_ok h]
      rfl

theorem lookup_of_layers {w : Layer} (hlayers : env.layers = front ++ w :: back) (name : String)
    (site : Site) :
    env.lookup name site =
      (front.findSome? (·.lookup name site)).or
        ((w.lookup name site).or (back.findSome? (·.lookup name site))) := by
  rw [lookup, hlayers, List.findSome?_append, List.findSome?_cons]
  cases w.lookup name site <;> rfl

/-- The last write for a name stands between the layers in front and those behind. -/
theorem lookup_after_of_layers {w : Layer} {writes : List Write} {name : String} {site : Site}
    (hlayers : env.layers = front ++ .store label vars :: back)
    (hafter : (env.after writes).layers = front ++ w :: back)
    (hw : w.lookup name site = Write.found (vars.get? name) none (Write.last? name writes)) :
    (env.after writes).lookup name site =
      (front.findSome? (·.lookup name site)).or
        (Write.found (env.lookup name site) (back.findSome? (·.lookup name site))
          (Write.last? name writes)) := by
  rw [lookup_of_layers hafter, lookup_of_layers hlayers, hw]
  cases Write.last? name writes with
  | none =>
      -- a hit in front is found by both sides, here and at the start
      cases front.findSome? (·.lookup name site) <;> rfl
  | some write => cases write <;> rfl

/-- Layers behave as maps over any history of writes.  Let `w` be the first layer that takes
writes.  After the history all other layers are as they were, and so is the name of `w`, which has
for every name what the last write for it left there.  A look-up finds the first hit in front of
`w`, else the value assigned by the last write for the name, else, if that write removed the name,
the first hit behind `w`, else what it found at the start.  Every further write is taken, and a
removal answers with what `w` has.  In a chain where no layer takes writes every write fails, with
an error that has the name of the first layer, and no layer changes.  An engine that performs one
more write has the environment of the longer history, whether the write fails or not. -/
theorem layered_after (env : Environment) (writes : List Write) :
    (∀ (front : List Layer) (w : Layer) (back : List Layer),
      env.layers = front ++ w :: back → (∀ layer ∈ front, layer.isWritable = false) →
        w.isWritable = true →
      ∃ w' : Layer, w'.isWritable = true ∧ w'.name = w.name ∧
        env.after writes = { env with layers := front ++ w' :: back } ∧
        (∀ name site, w'.lookup name site =
          Write.found (w.lookup name site) none (Write.last? name writes)) ∧
        (∀ name site, (env.after writes).lookup name site =
          (front.findSome? (·.lookup name site)).or
            (Write.found (env.lookup name site) (back.findSome? (·.lookup name site))
              (Write.last? name writes))) ∧
        (∀ name v, (env.after writes).assign name v =
          .ok (env.after (writes ++ [.assign name v]))) ∧
        ∀ name site, (env.after writes).remove name =
          .ok (w'.lookup name site, env.after (writes ++ [.remove name]))) ∧
    ((∀ layer ∈ env.layers, layer.isWritable = false) →
      env.after writes = env ∧
        ∀ name,
          (∀ v, env.assign name v =
            .error (.readOnly ((env.layers.head?.map Layer.name).getD "none") name)) ∧
          env.remove name =
            .error (.readOnly ((env.layers.head?.map Layer.name).getD "none") name)) ∧
    ∀ (σ : Type) (e : Engine σ) (write : Write), e.env = env.after writes →
      ((EngineM.change write.change : EngineM σ Unit).run e).2 =
        { e with env := env.after (writes ++ [write]) } := by
  refine ⟨fun front w back hlayers hfront hw => ?_, fun hfrozen => ?_, fun σ e write he => ?_⟩
  · cases w with
    | store label vars =>
        have hafter := after_of_layers hfront hlayers writes
        have hlayers' : (env.after writes).layers =
            front ++ .store label (Write.rewriteAll writes vars) :: back := by
          rw [hafter]
        have hheld := fun name => Write.get?_rewriteAll name writes vars
        refine ⟨.store label (Write.rewriteAll writes vars), rfl, rfl, hafter,
          fun name site => hheld name,
          fun name site => lookup_after_of_layers hlayers hlayers' (hheld name),
          fun name v => ?_, fun name site => ?_⟩
        · rw [after_concat, Write.change, assign_of_layers hfront hlayers']
          rfl
        · rw [after_concat, Write.change, remove_of_layers hfront hlayers']
          rfl
    | _ => cases hw
  · exact ⟨after_of_frozen hfrozen writes, fun name =>
      ⟨fun v => assign_of_frozen hfrozen name v, remove_of_frozen hfrozen name⟩⟩
  · rw [run_change_write, he, after_concat]

/-- Values in front stay, a removal uncovers what is behind, and a later assignment counts. -/
theorem layered_after_shadowed :
    (∀ site,
      let env : Environment :=
        ⟨[.frozen "fixed" [("A", .int 1)], .store "local" [("B", .int 2)],
          .store "shared" [("B", .int 3), ("C", .int 4)], .system []], false⟩
      let writes : List Write :=
        [.assign "A" (.int 5), .remove "C", .remove "B", .assign "C" (.int 6)]
      (env.after writes).lookup "A" site = some (.int 1) ∧
        (env.after writes).lookup "B" site = some (.int 3) ∧
        (env.after writes).lookup "C" site = some (.int 6) ∧
        ((env.after writes).remove "A").map (·.1) = .ok (some (.int 5)) ∧
        ((env.after writes).remove "B").map (·.1) = .ok none) ∧
    (∀ b, (⟨[.system [], .frozen "global" [("A", .int 1)]], b⟩ : Environment).remove "A" =
      .error (.readOnly "system" "A")) ∧
    ∀ b v, (⟨[], b⟩ : Environment).assign "A" v = .error (.readOnly "none" "A") := by
  refine ⟨fun site => ?_, fun b => ?_, fun b v => ?_⟩
  · obtain ⟨w', -, -, -, hheld, hlookup, -, hremove⟩ :=
      (layered_after ⟨_, false⟩
        [.assign "A" (.int 5), .remove "C", .remove "B", .assign "C" (.int 6)]).1
        [.frozen "fixed" [("A", .int 1)]] (.store "local" [("B", .int 2)])
        [.store "shared" [("B", .int 3), ("C", .int 4)], .system []] rfl
        (List.forall_mem_singleton.mpr rfl) rfl
    exact ⟨(hlookup "A" site).trans rfl, (hlookup "B" site).trans rfl,
      (hlookup "C" site).trans rfl,
      (congrArg (Except.map (·.1)) (hremove "A" site)).trans (congrArg Except.ok (hheld "A" site)),
      (congrArg (Except.map (·.1)) (hremove "B" site)).trans (congrArg Except.ok (hheld "B" site))⟩
  · have hfrozen : ∀ layer ∈ [Layer.system [], .frozen "global" [("A", .int 1)]],
        layer.isWritable = false := by
      simp [Layer.isWritable]
    exact (((layered_after ⟨_, b⟩ []).2.1 hfrozen).2 "A").2
  · exact (((layered_after ⟨[], b⟩ []).2.1 (List.forall_mem_nil _)).2 "A").1 v

end Environment

end Preprocessor
