/-
The rule for unknown names.

Taking unknown names for false only takes failures away.  A run that finds no name unknown without
the rule goes the same way with it: the outcome is the same, and so are the variables, the output
name, the log, and the calls of the host with their answers.  With the rule, only the host can still
say that a name is unknown.  The calls are seen by a host that records them; recording changes
nothing else about a run.
-/
import Preprocessor.Proofs.RunComparison

namespace Preprocessor

variable {σ : Type}

/-! ## Recording the calls of the host -/

/-- A call of the host: where, with which values, and the answer. -/
inductive Call where
  | action (site : Site) (args : List Value) (accepted : Bool)
  | function (site : Site) (name : String) (args : List Value) (result : Except EvalError Value)

/-- The host that records its calls, the last first. -/
def Host.recording (host : Host σ) : Host (σ × List Call) where
  takesAction s arity := host.takesAction s.1 arity
  knowsFunction s name arity := host.knowsFunction s.1 name arity
  act site args s :=
    let (accepted, s₁) := host.act site args s.1
    (accepted, s₁, .action site args accepted :: s.2)
  call site name args s :=
    let (result, s₁) := host.call site name args s.1
    (result, s₁, .function site name args result :: s.2)
  wantsStop s := host.wantsStop s.1

theorem Host.simulates_recording (host : Host σ) :
    host.recording.Simulates (fun s s' => s.1 = s') host := by
  constructor
  all_goals
    intro s s' hs
    subst hs
  · exact fun _ => rfl
  · exact fun _ _ => rfl
  · exact fun _ _ => ⟨rfl, rfl⟩
  · exact fun _ _ _ => ⟨rfl, rfl⟩

theorem Host.simulates_self (host : Host σ) : host.Simulates Eq host := by
  constructor
  all_goals
    intro s s' hs
    subst hs
  · exact fun _ => rfl
  · exact fun _ _ => rfl
  · exact fun _ _ => ⟨rfl, rfl⟩
  · exact fun _ _ _ => ⟨rfl, rfl⟩

/-- A recorded call that failed is the last of the record. -/
theorem Host.head?_of_recording_call {host : Host σ} {site : Site} {name : String}
    {args : List Value} {s s₁ : σ × List Call} {err : EvalError}
    (h : host.recording.call site name args s = (.error err, s₁)) :
    s₁.2.head? = some (.function site name args (.error err)) := by
  cases h' : host.call site name args s.1 with
  | mk result s₂ =>
      simp only [Host.recording, h', Prod.mk.injEq] at h
      obtain ⟨hresult, hs₁⟩ := h
      subst hresult hs₁
      rfl

namespace Engine

def recording (e : Engine σ) : Engine (σ × List Call) :=
  ⟨e.env, (e.host, []), e.outname, e.log⟩

def unrecorded (e : Engine (σ × List Call)) : Engine σ :=
  ⟨e.env, e.host.1, e.outname, e.log⟩

/-- The engine with another rule for unknown names. -/
def withRule (e : Engine σ) (unknownAsFalse : Bool) : Engine σ :=
  { e with env := { e.env with unknownAsFalse := unknownAsFalse } }

end Engine

namespace Comparison

/-- A run whose calls are recorded beside the run itself. -/
def ofRecording (host : Host σ) (rule : Bool) : Comparison (σ × List Call) σ where
  first := host.recording
  second := host
  related s s' := s.1 = s'
  simulates := host.simulates_recording
  policy := rule
  policy' := rule
  lenient := id
  blamed _ _ := False
  blames hrule := absurd rfl hrule

theorem eq_unrecorded {host : Host σ} {rule : Bool} {e : Engine (σ × List Call)} {e' : Engine σ}
    (h : (ofRecording host rule).Engines e e') : e' = e.unrecorded := by
  rcases e with ⟨⟨layers, b⟩, s, outname, log⟩
  rcases e' with ⟨⟨layers', b'⟩, s', outname', log'⟩
  obtain ⟨⟨hlayers, hb, hb'⟩, hhost, houtname, hlog⟩ := h
  have hrule : b' = b := hb'.trans hb.symm
  have hlayers : layers' = layers := hlayers
  have hhost : s.1 = s' := hhost
  have houtname : outname' = outname := houtname
  have hlog : log' = log := hlog
  rw [Engine.unrecorded, hrule, hlayers, ← hhost, houtname, hlog]

/-- A run in which an unknown name is an error beside one in which it is false.  The blame is with
a function of the host, the last call of all. -/
def ofRules (host : Host σ) : Comparison (σ × List Call) (σ × List Call) where
  first := host.recording
  second := host.recording
  related := Eq
  simulates := host.recording.simulates_self
  policy := false
  policy' := true
  lenient _ := rfl
  blamed err s := ∃ site name args, s.2.head? = some (.function site name args (.error err))
  blames _ {_ _ _ _ _ _} hcall _ := ⟨_, _, _, Host.head?_of_recording_call hcall⟩

theorem unrecorded_eq_withRule {host : Host σ} {e e' : Engine (σ × List Call)}
    (h : (ofRules host).Engines e e') : e'.unrecorded = e.unrecorded.withRule true := by
  rcases e with ⟨⟨layers, b⟩, s, outname, log⟩
  rcases e' with ⟨⟨layers', b'⟩, s', outname', log'⟩
  obtain ⟨⟨hlayers, hb, hb'⟩, hhost, houtname, hlog⟩ := h
  have hrule : b' = true := hb'
  have hlayers : layers' = layers := hlayers
  have hhost : s = s' := hhost
  have houtname : outname' = outname := houtname
  have hlog : log' = log := hlog
  rw [Engine.unrecorded, hrule, hlayers, ← hhost, houtname, hlog]
  rfl

end Comparison

namespace Source

variable (host : Host σ) (t : FileTree) (options : Options) (root : Path) (e : Engine σ)

/-- A run with its calls recorded. -/
def recorded : Except Diagnostic Outcome × Engine (σ × List Call) :=
  (preprocess host.recording t options root).run e.recording

/-- The calls of the host in a run, the last first. -/
def calls : List Call :=
  (recorded host t options root e).2.host.2

theorem run_preprocess_eq_recorded :
    (preprocess host t options root).run e =
      ((recorded host t options root e).1, (recorded host t options root e).2.unrecorded) := by
  have hstart : (Comparison.ofRecording host e.env.unknownAsFalse).Engines e.recording e :=
    ⟨⟨rfl, rfl, rfl⟩, rfl, rfl, rfl⟩
  have hfirst : (preprocess host.recording t options root).run e.recording =
      ((recorded host t options root e).1, (recorded host t options root e).2) := rfl
  obtain ⟨e₁, hrun, he₁⟩ := (Comparison.tracks_preprocess t options root).follows hstart hfirst
    fun d _ hexcused => absurd rfl hexcused.1
  rw [Comparison.eq_unrecorded he₁] at hrun
  exact hrun

variable {host t options root e}

/-- With no name unknown, the run goes the same way if unknown names are false. -/
theorem exists_recorded_withRule
    (h : ∀ d, (recorded host t options root (e.withRule false)).1 = .error d →
      d.fault.kind ≠ .unknownVariable) :
    ∃ e₁, recorded host t options root (e.withRule true) =
        ((recorded host t options root (e.withRule false)).1, e₁) ∧
      (Comparison.ofRules host).Engines (recorded host t options root (e.withRule false)).2 e₁ := by
  have hstart : (Comparison.ofRules host).Engines (e.withRule false).recording
      (e.withRule true).recording :=
    ⟨⟨rfl, rfl, rfl⟩, rfl, rfl, rfl⟩
  have hfirst : (preprocess host.recording t options root).run (e.withRule false).recording =
      ((recorded host t options root (e.withRule false)).1,
        (recorded host t options root (e.withRule false)).2) := rfl
  have htracks := Comparison.tracks_preprocess (k := Comparison.ofRules host) t options root
  obtain ⟨e₁, hrun, he₁⟩ := htracks.follows hstart hfirst fun d hd hexcused => h d hd hexcused.2
  exact ⟨e₁, hrun, he₁⟩

/-- If unknown names are false and one is unknown all the same, then a function of the host has
just said so. -/
theorem exists_call_of_recorded {d : Diagnostic}
    (hd : (recorded host t options root (e.withRule true)).1 = .error d)
    (hkind : d.fault.kind = .unknownVariable) :
    ∃ site name args v, d.fault = .eval (.unknownVariable v) ∧
      (calls host t options root (e.withRule true)).head? =
        some (.function site name args (.error (.unknownVariable v))) := by
  have hrun : (preprocess host.recording t options root).run (e.withRule true).recording =
      ((recorded host t options root (e.withRule true)).1,
        (recorded host t options root (e.withRule true)).2) := rfl
  have htracks := Comparison.tracks_preprocess (k := Comparison.ofRules host) t options root
  have hkept : (Comparison.ofRules host).runs.kept (e.withRule true).recording := rfl
  obtain ⟨-, hblamed⟩ := htracks.reports hkept hrun
  obtain ⟨err, herr, site, name, args, hlast⟩ := hblamed d hd ⟨Bool.noConfusion, hkind⟩
  rw [herr] at hkind
  cases err with
  | unknownVariable v => exact ⟨site, name, args, v, herr, hlast⟩
  | _ => cases hkind

/-- Taking unknown names for false changes nothing about a run in which no name is unknown: the
outcome or error, the engine after it and the calls of the host are the same.  A name that is
unknown even so was reported by a function of the host, in the last call of all. -/
theorem preprocess_withRule (host : Host σ) (t : FileTree) (options : Options) (root : Path)
    (e : Engine σ) :
    let strict := (preprocess host t options root).run (e.withRule false)
    let lenient := (preprocess host t options root).run (e.withRule true)
    ((∀ d, strict.1 = .error d → d.fault.kind ≠ .unknownVariable) →
      lenient = (strict.1, strict.2.withRule true) ∧
        calls host t options root (e.withRule true) =
          calls host t options root (e.withRule false)) ∧
    ∀ d, lenient.1 = .error d → d.fault.kind = .unknownVariable →
      ∃ site name args v, d.fault = .eval (.unknownVariable v) ∧
        (calls host t options root (e.withRule true)).head? =
          some (.function site name args (.error (.unknownVariable v))) := by
  dsimp only
  rw [run_preprocess_eq_recorded, run_preprocess_eq_recorded]
  constructor
  · intro hknown
    obtain ⟨e₁, hrecorded, he₁⟩ := exists_recorded_withRule hknown
    have hcalls : e₁.host = (recorded host t options root (e.withRule false)).2.host :=
      he₁.host.symm
    rw [calls, calls, hrecorded, Comparison.unrecorded_eq_withRule he₁]
    exact ⟨rfl, congrArg Prod.snd hcalls⟩
  · intro d hd hkind
    exact exists_call_of_recorded hd hkind

/-- A host with one function, which finds a name unknown. -/
def unknowingHost : Host Unit :=
  { Host.declining Unit with
    knowsFunction := fun _ name arity => name == "f" && arity == 0
    call := fun _ _ _ s => (.error (.unknownVariable "v"), s) }

/-- A file that asks for a name that no layer knows, and then for the function. -/
def asksTwice : FileTree where
  entries := [(["main"], .file ("//#if X || f()\n//#endif\n".toList.map fun c => .ofNat c.toNat))]

/-- Without the rule the name ends the run; with it, the function does. -/
theorem preprocess_asksTwice_withRule :
    let e : Engine Unit := ⟨⟨[], false⟩, (), none, #[]⟩
    let run := fun rule =>
      ((preprocess unknowingHost asksTwice {} ⟨"main"⟩).run (e.withRule rule)).1
    let report := fun v : String =>
      Diagnostic.mk (.eval (.unknownVariable v)) (some "//#if X || f()") [⟨⟨"main"⟩, 0⟩]
    run false = .error (report "X") ∧ run true = .error (report "v") ∧
      ∃ site name args v, (report "v").fault = .eval (.unknownVariable v) ∧
        (calls unknowingHost asksTwice {} ⟨"main"⟩ (e.withRule true)).head? =
          some (.function site name args (.error (.unknownVariable v))) := by
  intro e run report
  have hstrict : run false = .error (report "X") := by with_unfolding_all rfl
  have hlenient : run true = .error (report "v") := by with_unfolding_all rfl
  have hrule := preprocess_withRule unknowingHost asksTwice {} ⟨"main"⟩ e
  exact ⟨hstrict, hlenient, hrule.2 (report "v") hlenient rfl⟩

end Source

end Preprocessor
