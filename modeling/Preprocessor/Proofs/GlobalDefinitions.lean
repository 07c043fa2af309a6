/-
What files of definitions do, told by what the engine does.

A line that defines or removes a variable does in a definition file what it does in a source file
wherever lines count: the same variables, the same calls of the host, the same failure.  Text is
ignored, and every other directive is refused.  A whole load is then these lines one after the
other, up to the first one that fails, and the failure is reported with that line and its place
alone.
-/
import Preprocessor.Proofs.DefinedNames
import Preprocessor.Proofs.FailingLines
import Preprocessor.Source.Globals

namespace Preprocessor

/-- Whether a directive defines or removes a variable of its own file. -/
def Directive.isDefinition : Directive → Bool
  | define _ _ | undefine _ => true
  | _ => false

namespace GlobalFile

variable {σ : Type}

/-- What comes of a line of a definition file. -/
inductive Applied (host : Host σ) (site : Site) (content : String) (e : Engine σ) :
    Except Fault Unit → Engine σ → Prop where
  | text (h : LineKind.classify content = .ok .text) : Applied host site content e (.ok ()) e
  | toggle {indent body : String} {raw : Bool}
      (h : LineKind.classify content = .ok (.toggle indent body raw)) :
      Applied host site content e (.ok ()) e
  /-- A definition or a removal comes to what it comes to in any scope in which lines count. -/
  | definition {d : Directive} {r : Except Fault Step} {e' : Engine σ}
      (h : LineKind.classify content = .ok (.directive d)) (hd : d.isDefinition = true)
      (hline : ∀ s : Scope, s.conditions.isActive = true →
        e.processLine host site content s = (r, s, e')) :
      Applied host site content e (r.map fun _ => ()) e'
  /-- A global definition comes to what a definition with its name and expression does. -/
  | global {name : String} {expr : Option String} {content' : String} {r : Except Fault Step}
      {e' : Engine σ} (h : LineKind.classify content = .ok (.directive (.defineGlobal name expr)))
      (h' : LineKind.classify content' = .ok (.directive (.define name expr)))
      (hline : ∀ s : Scope, s.conditions.isActive = true →
        e.processLine host site content' s = (r, s, e')) :
      Applied host site content e (r.map fun _ => ()) e'
  | refused {d : Directive} (h : LineKind.classify content = .ok (.directive d))
      (hd : d.isDefinition = false) (hglobal : ∀ name expr, d ≠ .defineGlobal name expr) :
      Applied host site content e (.error (.notADefinition content)) e
  /-- A line that cannot be read fails as it does in a source file. -/
  | malformed {fault : Fault} (h : LineKind.classify content = .error fault)
      (hline : ∀ s : Scope, s.conditions.isActive = true →
        e.processLine host site content s = (.error fault, s, e)) :
      Applied host site content e (.error fault) e

/-- Lines of a file, from one on, that are followed one after the other. -/
inductive AppliedAll (host : Host σ) (path : Path) :
    Nat → List Line → Engine σ → Engine σ → Prop where
  | nil {index : Nat} {e : Engine σ} : AppliedAll host path index [] e e
  | cons {index : Nat} {line : Line} {rest : List Line} {e e₁ e₂ : Engine σ}
      (hline : Applied host ⟨path, index⟩ line.content e (.ok ()) e₁)
      (hrest : AppliedAll host path (index + 1) rest e₁ e₂) :
      AppliedAll host path index (line :: rest) e e₂

/-- The engine when a definition file is about to be read. -/
def opening (path : Path) (e : Engine σ) : Engine σ :=
  { e with log := e.log.push ⟨.debug, "Loading global definitions from " ++ path.text⟩ }

inductive LoadedAll (host : Host σ) (t : FileTree) (encoding : Encoding) :
    List Path → Engine σ → Engine σ → Prop where
  | nil {e : Engine σ} : LoadedAll host t encoding [] e e
  | cons {path : Path} {rest : List Path} {text : String} {e e₁ e₂ : Engine σ}
      (hread : readText t encoding path = .ok text)
      (hlines : AppliedAll host path 0 (Text.lines text) (opening path e) e₁)
      (hrest : LoadedAll host t encoding rest e₁ e₂) :
      LoadedAll host t encoding (path :: rest) e e₂

/-- What comes of definition files. -/
inductive Loaded (host : Host σ) (t : FileTree) (encoding : Encoding) (paths : List Path)
    (e : Engine σ) : Except Diagnostic Unit → Engine σ → Prop where
  | complete {e' : Engine σ} (h : LoadedAll host t encoding paths e e') :
      Loaded host t encoding paths e (.ok ()) e'
  /-- A file cannot be read, the files before it being applied. -/
  | unread {before after : List Path} {path : Path} {fault : Fault} {e₁ : Engine σ}
      (hpaths : paths = before ++ path :: after)
      (hbefore : LoadedAll host t encoding before e e₁)
      (hread : readText t encoding path = .error fault) :
      Loaded host t encoding paths e (.error ⟨fault, none, []⟩) (opening path e₁)
  /-- A line fails, the files and the lines before it being applied.  But for the calls of the
  host, nothing has changed since. -/
  | stopped {before after : List Path} {path : Path} {text : String} {above below : List Line}
      {line : Line} {fault : Fault} {e₁ e₂ e' : Engine σ}
      (hpaths : paths = before ++ path :: after)
      (hbefore : LoadedAll host t encoding before e e₁)
      (hread : readText t encoding path = .ok text)
      (hlines : Text.lines text = above ++ line :: below)
      (habove : AppliedAll host path 0 above (opening path e₁) e₂)
      (hline : Applied host ⟨path, above.length⟩ line.content e₂ (.error fault) e')
      (hkept : e'.env = e₂.env ∧ e'.outname = e₂.outname ∧ e'.log = e₂.log) :
      Loaded host t encoding paths e
        (.error ⟨fault, some line.content, [⟨path, above.length⟩]⟩) e'

/-! ## One line -/

section

variable {host : Host σ} {site : Site} {content : String} {e e' : Engine σ}

theorem processLine_of_active {d : Directive}
    (h : LineKind.classify content = .ok (.directive d)) (hd : d.isConditional = false)
    {s : Scope} (hs : s.conditions.isActive = true) :
    e.processLine host site content s = (LineM.plain host site d).run (s, e) := by
  rw [processLine_eq, h]
  simp [hs, hd]

/-- What the loader does with a definition, the engine does in any scope in which lines count. -/
theorem processLine_of_definition {d : Directive}
    (h : LineKind.classify content = .ok (.directive d)) (hd : d.isDefinition = true) {s : Scope}
    (hs : s.conditions.isActive = true) :
    e.processLine host site content s =
      (((followLine host site content).run e).1.map fun _ => .skip, s,
        ((followLine host site content).run e).2) := by
  have hskip {x : EngineM σ Unit} :
      (x.toLine >>= fun _ => (pure .skip : LineM σ Step)).run (s, e) =
        ((x.run e).1.map fun _ => .skip, s, (x.run e).2) := by
    rcases hx : x.run e with ⟨fault | ⟨⟩, e₁⟩
    · exact run_bind_of_error (run_toLine hx s)
    · exact run_bind_of_ok (run_toLine hx s)
  cases d with
  | define name expr =>
      rw [processLine_of_active h rfl hs, followLine, h]
      exact hskip
  | undefine name =>
      rw [processLine_of_active h rfl hs, followLine, h]
      exact hskip
  | _ => cases hd

theorem followLine_of_global {name : String} {expr : Option String} {content' : String}
    (h : LineKind.classify content = .ok (.directive (.defineGlobal name expr)))
    (h' : LineKind.classify content' = .ok (.directive (.define name expr))) :
    followLine host site content = followLine host site content' := by
  rw [followLine, followLine, h, h']

theorem followLine_of_refused {d : Directive}
    (h : LineKind.classify content = .ok (.directive d)) (hd : d.isDefinition = false)
    (hglobal : ∀ name expr, d ≠ .defineGlobal name expr) :
    followLine host site content = throw (.notADefinition content) := by
  rw [followLine, h]
  cases d with
  | define name expr => cases hd
  | undefine name => cases hd
  | defineGlobal name expr => exact absurd rfl (hglobal name expr)
  | _ => rfl

theorem exists_define_of_global {name : String} {expr : Option String}
    (h : LineKind.classify content = .ok (.directive (.defineGlobal name expr))) :
    ∃ content', LineKind.classify content' = .ok (.directive (.define name expr)) := by
  obtain ⟨body, -, hbody⟩ := LineKind.exists_body_of_classify h
  have harranged : Directive.Arranged (.defineGlobal name expr) := by
    refine Directive.arranged_parse (String.ofList body) _ ?_
    rw [Directive.parse, String.toList_ofList, hbody]
  exact ⟨_, LineKind.classify_form (fun _ => Directive.noConfusion) harranged⟩

theorem run_followLine_of_processLine {d : Directive} {r : Except Fault Step}
    (h : LineKind.classify content = .ok (.directive d)) (hd : d.isDefinition = true)
    (hline : ∀ s : Scope, s.conditions.isActive = true →
      e.processLine host site content s = (r, s, e')) :
    (followLine host site content).run e = (r.map fun _ => (), e') := by
  have hprocess := (processLine_of_definition h hd rfl).symm.trans (hline {} rfl)
  rcases hrun : (followLine host site content).run e with ⟨fault | ⟨⟩, e₁⟩
  · rw [hrun] at hprocess
    cases hprocess
    rfl
  · rw [hrun] at hprocess
    cases hprocess
    rfl

theorem exists_applied_definition {d : Directive} {r : Except Fault Unit}
    (h : LineKind.classify content = .ok (.directive d)) (hd : d.isDefinition = true)
    (hrun : (followLine host site content).run e = (r, e')) :
    ∃ r' : Except Fault Step, (r'.map fun _ => ()) = r ∧ ∀ s : Scope,
      s.conditions.isActive = true → e.processLine host site content s = (r', s, e') := by
  refine ⟨r.map fun _ => .skip, ?_, fun s hs => ?_⟩
  · cases r <;> rfl
  · rw [processLine_of_definition h hd hs, hrun]

/-- The loader does with a line what the engine makes of it. -/
theorem applied_iff {r : Except Fault Unit} :
    Applied host site content e r e' ↔ (followLine host site content).run e = (r, e') := by
  constructor
  · intro h
    cases h with
    | text h => rw [followLine, h]; rfl
    | toggle h => rw [followLine, h]; rfl
    | definition h hd hline => exact run_followLine_of_processLine h hd hline
    | global h h' hline =>
        rw [followLine_of_global h h']
        exact run_followLine_of_processLine h' rfl hline
    | refused h hd hglobal => rw [followLine_of_refused h hd hglobal]; rfl
    | malformed h hline => rw [followLine, h]; rfl
  · intro hrun
    cases hkind : LineKind.classify content with
    | error fault =>
        rw [followLine, hkind] at hrun
        cases hrun
        refine .malformed hkind fun s hs => ?_
        rw [processLine_eq, hkind]
        simp [hs]
    | ok kind =>
        cases kind with
        | text =>
            rw [followLine, hkind] at hrun
            cases hrun
            exact .text hkind
        | toggle indent body raw =>
            rw [followLine, hkind] at hrun
            cases hrun
            exact .toggle hkind
        | directive d =>
            by_cases hd : d.isDefinition = true
            · obtain ⟨r', rfl, hline⟩ := exists_applied_definition hkind hd hrun
              exact .definition hkind hd hline
            · by_cases hglobal : ∃ name expr, d = .defineGlobal name expr
              · obtain ⟨name, expr, rfl⟩ := hglobal
                obtain ⟨content', h'⟩ := exists_define_of_global hkind
                rw [followLine_of_global hkind h'] at hrun
                obtain ⟨r', rfl, hline⟩ := exists_applied_definition h' rfl hrun
                exact .global hkind h' hline
              · have hnot : ∀ name expr, d ≠ .defineGlobal name expr :=
                  fun name expr hd => hglobal ⟨name, expr, hd⟩
                have hplain : d.isDefinition = false := Bool.eq_false_iff.mpr hd
                rw [followLine_of_refused hkind hplain hnot] at hrun
                cases hrun
                exact .refused hkind hplain hnot

theorem atomic_followLine (host : Host σ) (site : Site) (content : String) :
    Atomic Engine.apart (followLine host site content) := by
  have hquiet (fault : Fault) : Atomic Engine.apart (throw fault : EngineM σ Unit) :=
    (Quiet.throw fault).atomic
  have hpure : Atomic Engine.apart (pure () : EngineM σ Unit) := (Quiet.pure ()).atomic
  unfold followLine
  cases LineKind.classify content with
  | error fault => exact hquiet fault
  | ok kind =>
      cases kind with
      | text => exact hpure
      | toggle indent body raw => exact hpure
      | directive d =>
          cases d with
          | define name expr => exact EngineM.atomic_define host site name expr
          | defineGlobal name expr => exact EngineM.atomic_define host site name expr
          | undefine name => exact EngineM.atomic_change _
          | _ => exact hquiet _

end

/-! ## The lines of a file -/

section

variable {host : Host σ} {path : Path} {index : Nat} {line : Line} {rest : List Line}
  {e e₁ e₂ : Engine σ}

theorem run_followLines_of_ok
    (h : (followLine host ⟨path, index⟩ line.content).run e = (.ok (), e₁)) :
    (followLines host path index (line :: rest)).run e =
      (followLines host path (index + 1) rest).run e₁ := by
  rw [followLines]
  exact run_bind_of_ok (by rw [ExceptT.run_mk, h])

theorem run_followLines_of_error {fault : Fault}
    (h : (followLine host ⟨path, index⟩ line.content).run e = (.error fault, e₁)) :
    (followLines host path index (line :: rest)).run e =
      (.error ⟨fault, some line.content, [⟨path, index⟩]⟩, e₁) := by
  rw [followLines]
  exact run_bind_of_error (by rw [ExceptT.run_mk, h]; rfl)

theorem run_followLines_append {above : List Line} (h : AppliedAll host path index above e e₁)
    (rest : List Line) :
    (followLines host path index (above ++ rest)).run e =
      (followLines host path (index + above.length) rest).run e₁ := by
  induction h with
  | nil => rfl
  | cons hline hrest ih =>
      rw [List.cons_append, run_followLines_of_ok (applied_iff.mp hline), ih, List.length_cons,
        Nat.add_assoc, Nat.add_comm 1]

theorem run_followLines_of_appliedAll {lines : List Line}
    (h : AppliedAll host path index lines e e₁) :
    (followLines host path index lines).run e = (.ok (), e₁) := by
  have hrun := run_followLines_append h []
  rwa [List.append_nil] at hrun

/-- Lines are all followed, or up to one that fails. -/
theorem followLines_cases (host : Host σ) (path : Path) (index : Nat) (lines : List Line)
    (e : Engine σ) :
    (∃ e', AppliedAll host path index lines e e') ∨
    ∃ above line below fault e₁ e', lines = above ++ line :: below ∧
      AppliedAll host path index above e e₁ ∧
      Applied host ⟨path, index + above.length⟩ line.content e₁ (.error fault) e' := by
  induction lines generalizing index e with
  | nil => exact .inl ⟨e, .nil⟩
  | cons line rest ih =>
      rcases hline : (followLine host ⟨path, index⟩ line.content).run e with ⟨fault | ⟨⟩, e₁⟩
      · exact .inr ⟨[], line, rest, fault, e, e₁, rfl, .nil, applied_iff.mpr hline⟩
      · rcases ih (index + 1) e₁ with
          ⟨e', hrest⟩ | ⟨above, line', below, fault, e₂, e', rfl, habove, hfails⟩
        · exact .inl ⟨e', .cons (applied_iff.mpr hline) hrest⟩
        · refine .inr ⟨line :: above, line', below, fault, e₂, e', rfl,
            .cons (applied_iff.mpr hline) habove, ?_⟩
          rwa [List.length_cons, Nat.add_comm above.length, ← Nat.add_assoc]

end

/-! ## Files -/

section

variable {host : Host σ} {t : FileTree} {encoding : Encoding} {path : Path} {paths : List Path}
  {e e₁ e' : Engine σ}

theorem run_load_of_error {fault : Fault} (h : readText t encoding path = .error fault) :
    (load host t encoding path).run e = (.error ⟨fault, none, []⟩, opening path e) := by
  rw [load, h]
  rfl

theorem run_load_of_text {text : String} (h : readText t encoding path = .ok text) :
    (load host t encoding path).run e =
      (followLines host path 0 (Text.lines text)).run (opening path e) := by
  rw [load, h]
  rfl

theorem run_loadAll_append (h : LoadedAll host t encoding paths e e₁) (rest : List Path) :
    (loadAll host t encoding (paths ++ rest)).run e = (loadAll host t encoding rest).run e₁ := by
  induction h with
  | nil => rfl
  | cons hread hlines hrest ih =>
      rw [List.cons_append, loadAll, ← ih]
      exact run_bind_of_ok ((run_load_of_text hread).trans (run_followLines_of_appliedAll hlines))

/-- Files are all applied, or up to one that cannot be read, or up to a line that fails. -/
theorem exists_loaded (host : Host σ) (t : FileTree) (encoding : Encoding) (paths : List Path)
    (e : Engine σ) : ∃ r e', Loaded host t encoding paths e r e' := by
  induction paths generalizing e with
  | nil => exact ⟨.ok (), e, .complete .nil⟩
  | cons path rest ih =>
      cases hread : readText t encoding path with
      | error fault => exact ⟨_, _, .unread (List.nil_append _).symm .nil hread⟩
      | ok text =>
          rcases followLines_cases host path 0 (Text.lines text) (opening path e) with
            ⟨e₁, hlines⟩ | ⟨above, line, below, fault, e₁, e', hlines, habove, hfails⟩
          · obtain ⟨r, e', hrest⟩ := ih e₁
            refine ⟨r, e', ?_⟩
            cases hrest with
            | complete h => exact .complete (.cons hread hlines h)
            | unread hpaths hbefore hread' =>
                exact .unread (by rw [hpaths, List.cons_append]) (.cons hread hlines hbefore) hread'
            | stopped hpaths hbefore hread' hlines' habove hline hkept =>
                exact .stopped (by rw [hpaths, List.cons_append]) (.cons hread hlines hbefore)
                  hread' hlines' habove hline hkept
          · rw [Nat.zero_add] at hfails
            have hkept := atomic_followLine host _ _ e₁ fault e' (applied_iff.mp hfails)
            simp only [Engine.apart, Prod.mk.injEq] at hkept
            exact ⟨_, _, .stopped (List.nil_append _).symm .nil hread hlines habove hfails hkept⟩

theorem run_loadAll_of_loaded {r : Except Diagnostic Unit}
    (h : Loaded host t encoding paths e r e') :
    (loadAll host t encoding paths).run e = (r, e') := by
  cases h with
  | complete h =>
      have hrun := run_loadAll_append h []
      rwa [List.append_nil] at hrun
  | unread hpaths hbefore hread =>
      rw [hpaths, run_loadAll_append hbefore, loadAll]
      exact run_bind_of_error (run_load_of_error hread)
  | stopped hpaths hbefore hread hlines habove hline hkept =>
      rw [hpaths, run_loadAll_append hbefore, loadAll]
      refine run_bind_of_error ((run_load_of_text hread).trans ?_)
      rw [hlines, run_followLines_append habove, Nat.zero_add]
      exact run_followLines_of_error (applied_iff.mp hline)

/-- Loading definition files is following their lines in order as the engine does where lines
count, text being ignored, up to the first line that fails: what was done before it stays, and the
failure carries that line and its place. -/
theorem loadAll_iff_loaded (host : Host σ) (t : FileTree) (encoding : Encoding)
    (paths : List Path) (e e' : Engine σ) (r : Except Diagnostic Unit) :
    (loadAll host t encoding paths).run e = (r, e') ↔ Loaded host t encoding paths e r e' := by
  constructor
  · intro hrun
    obtain ⟨r', e'', hloaded⟩ := exists_loaded host t encoding paths e
    rw [run_loadAll_of_loaded hloaded] at hrun
    cases hrun
    exact hloaded
  · exact run_loadAll_of_loaded

end

end GlobalFile

end Preprocessor
