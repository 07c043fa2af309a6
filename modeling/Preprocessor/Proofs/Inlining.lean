/-
An included file stands for its text.

An included file is followed with no block open, and its lines in its place are followed on top of
the blocks that are open there.  These count where a file is included, and a file that is followed
to its end closes all its blocks and no others, so the two runs do the same, as long as no line
looks at its place or at the file as a whole.  What the run does before and after the line is the
same too: other files do not depend on the text of a file that is open.

Besides the variables a line may look at its place, by the names for the file and the line, or be
about its file as a whole: it includes another one, excludes the file or switches its output.
Whether it does can be read off the line.  A host is told the place of a call, so it has to decline
everything.
-/
import Preprocessor.Proofs.BlockMoves
import Preprocessor.Proofs.EncodingRoundTrip
import Preprocessor.Proofs.LineSplitting
import Preprocessor.Proofs.RunMirroring

namespace Preprocessor

variable {σ α β : Type}

/-! ## Lines that leave the file alone -/

/-- Whether a directive is about the file it stands in: it includes another, excludes it or
switches its output. -/
def Directive.concernsFile : Directive → Bool
  | includeFile _ | excludeIf _ | outputOff | outputOn | commentNext => true
  | _ => false

/-- Whether a line is such a directive. -/
def LineKind.concernsFile (content : String) : Bool :=
  match LineKind.classify content with
  | .ok (.directive d) => d.concernsFile
  | _ => false

/-- A computation that leaves the scope as it is. -/
def KeepsScope (x : LineM σ α) : Prop :=
  ∀ s e, (x.run (s, e)).2.1 = s

namespace KeepsScope

theorem toLine (x : EngineM σ α) : KeepsScope x.toLine :=
  fun _ _ => rfl

theorem pure (a : α) : KeepsScope (pure a : LineM σ α) :=
  fun _ _ => rfl

theorem throw (fault : Fault) : KeepsScope (throw fault : LineM σ α) :=
  fun _ _ => rfl

theorem bind {x : LineM σ α} {f : α → LineM σ β} (hx : KeepsScope x)
    (hf : ∀ a, KeepsScope (f a)) : KeepsScope (x >>= f) := by
  intro s e
  rcases hr : x.run (s, e) with ⟨r, s₁, e₁⟩
  have hs₁ : s₁ = s := by
    have hkeeps := hx s e
    rw [hr] at hkeeps
    exact hkeeps
  subst hs₁
  cases r with
  | error fault => rw [run_bind_of_error hr]
  | ok a =>
      rw [run_bind_of_ok hr]
      exact hf a s₁ e₁

theorem plain (host : Host σ) (site : Site) {d : Directive}
    (h : d.concernsFile = false ∨ ∃ expr, d = .includeFile expr) :
    KeepsScope (LineM.plain host site d) := by
  have hskip : KeepsScope (Pure.pure .skip : LineM σ Step) := pure Step.skip
  cases d with
  | define name expr => exact (toLine _).bind fun _ => hskip
  | undefine name => exact (toLine _).bind fun _ => hskip
  | defineGlobal name expr => exact throw _
  | includeFile expr => exact (toLine _).bind fun _ => pure _
  | action args => exact (toLine _).bind fun _ => hskip
  | outname expr =>
      refine (toLine _).bind fun name => ?_
      dsimp only
      split
      · exact throw _
      · exact fun _ _ => rfl
  | error expr => exact (toLine _).bind fun _ => throw _
  | warning expr => exact (toLine _).bind fun _ => (toLine _).bind fun _ => hskip
  | echo expr => exact (toLine _).bind fun _ => (toLine _).bind fun _ => hskip
  | unknown text => exact throw _
  | excludeIf expr => simp [Directive.concernsFile] at h
  | outputOff => simp [Directive.concernsFile] at h
  | outputOn => simp [Directive.concernsFile] at h
  | commentNext => simp [Directive.concernsFile] at h
  | _ => exact hskip

end KeepsScope

/-- What lines that leave the file alone keep of its scope. -/
structure Scope.Keeps (s s' : Scope) : Prop where
  excluded : s'.conditions.excluded = s.conditions.excluded
  outputOn : s'.outputOn = s.outputOn
  commentNext : s.commentNext = false → s'.commentNext = false

namespace Scope.Keeps

theorem refl (s : Scope) : s.Keeps s :=
  ⟨rfl, rfl, id⟩

theorem trans {s s' s'' : Scope} (h : s.Keeps s') (h' : s'.Keeps s'') : s.Keeps s'' :=
  ⟨h'.excluded.trans h.excluded, h'.outputOn.trans h.outputOn, h'.commentNext ∘ h.commentNext⟩

end Scope.Keeps

section

variable {host : Host σ} {site : Site} {content : String} {s s' : Scope} {e e' : Engine σ}
  {step : Step}

theorem within_of_settle {x : EngineM σ Bool} {pending : Conditions.Pending}
    (h : s.settle x e pending = (.ok step, s', e')) : s' = s.within s'.conditions := by
  cases pending with
  | settled c =>
      cases h
      rfl
  | asks next =>
      unfold Scope.settle at h
      dsimp only at h
      split at h
      · cases h
        rfl
      · cases h

theorem within_of_conditional {d : Directive}
    (hkind : LineKind.classify content = .ok (.directive d)) (hd : d.isConditional = true)
    (h : e.processLine host site content s = (.ok step, s', e')) :
    s' = s.within s'.conditions := by
  have hopening (t : Test) (ht : d = t.directive) : s' = s.within s'.conditions := by
    subst ht
    rw [processLine_of_opening host site t hkind] at h
    exact within_of_settle h
  cases d with
  | ifTrue expr => exact hopening (.holds expr) rfl
  | ifDefined name => exact hopening (.isDefined name) rfl
  | ifNotDefined name => exact hopening (.isNotDefined name) rfl
  | elseIf expr =>
      rw [processLine_of_elseIf host site hkind] at h
      split at h
      · cases h
      · exact within_of_settle h
  | otherwise =>
      rw [processLine_of_otherwise host site hkind] at h
      split at h
      · cases h
      · cases h
        rfl
  | endIf =>
      rw [processLine_of_endIf host site hkind] at h
      split at h
      · cases h
      · cases h
        rfl
  | _ => cases hd

theorem keeps_of_conditional {d : Directive}
    (hkind : LineKind.classify content = .ok (.directive d)) (hd : d.isConditional = true)
    (h : e.processLine host site content s = (.ok step, s', e')) : s.Keeps s' := by
  have hwithin := within_of_conditional hkind hd h
  have hmoves := moves_of_processLine h
  have hpart : LineKind.part? content = d.part? := by rw [LineKind.part?, hkind]
  have hexcluded : s'.conditions.excluded = s.conditions.excluded := by
    obtain ⟨p, hp⟩ : ∃ p, d.part? = some p := by cases d <;> cases hd <;> exact ⟨_, rfl⟩
    rw [hpart, hp] at hmoves
    generalize s.conditions = c, s'.conditions = c' at hmoves ⊢
    cases hmoves <;> rfl
  exact ⟨hexcluded, by rw [hwithin]; rfl, fun hs => by rw [hwithin]; exact hs⟩

theorem keeps_of_emit {x : LineM σ String} (hx : KeepsScope x) {f : String → String}
    (h : (x >>= fun text => LineM.emit (f text)).run (s, e) = (.ok step, s', e')) :
    s.Keeps s' := by
  rcases hr : x.run (s, e) with ⟨r, s₁, e₁⟩
  have hs₁ : s₁ = s := by
    have hkeeps := hx s e
    rw [hr] at hkeeps
    exact hkeeps
  cases r with
  | error fault =>
      rw [run_bind_of_error hr] at h
      cases h
  | ok text =>
      rw [run_bind_of_ok hr] at h
      cases h
      rw [hs₁]
      exact ⟨rfl, rfl, fun _ => rfl⟩

theorem keeps_of_branch {x : LineM σ Step} {c c' : Prop} [Decidable c] [Decidable c']
    (hx : x.run (s, e) = (.ok step, s', e') → s.Keeps s')
    (h : (if c then (.ok .skip, s, e) else if c' then x.run (s, e) else (.ok .skip, s, e)) =
      (.ok step, s', e')) : s.Keeps s' := by
  split at h
  · cases h
    exact .refl s
  · split at h
    · exact hx h
    · cases h
      exact .refl s

/-- A line that does not concern the file leaves its switches alone. -/
theorem keeps_of_processLine (hline : LineKind.concernsFile content = false)
    (h : e.processLine host site content s = (.ok step, s', e')) : s.Keeps s' := by
  unfold LineKind.concernsFile at hline
  cases hkind : LineKind.classify content with
  | error fault =>
      rw [processLine_eq, hkind] at h
      dsimp only at h
      split at h
      · cases h
        exact .refl s
      · cases h
  | ok kind =>
      rw [hkind] at hline
      cases kind with
      | directive d =>
          cases hd : d.isConditional with
          | true => exact keeps_of_conditional hkind hd h
          | false =>
              rw [processLine_eq, hkind] at h
              simp only [hd, Bool.false_eq_true, if_false] at h
              refine keeps_of_branch (fun hrun => ?_) h
              have hkeeps := KeepsScope.plain host site (.inl hline) s e
              rw [hrun] at hkeeps
              rw [show s' = s from hkeeps]
              exact .refl s
      | text =>
          rw [processLine_eq, hkind] at h
          refine keeps_of_branch (fun hrun => ?_) h
          exact keeps_of_emit (.toLine _) (f := id) hrun
      | toggle indent body raw =>
          rw [processLine_eq, hkind] at h
          refine keeps_of_branch (fun hrun => keeps_of_emit ?_ hrun) h
          split
          · exact .pure body
          · exact .toLine _

/-- A line that asks for a file counts and, without a host, changes neither the scope nor the
engine. -/
theorem eq_of_processLine_includeFile {target : String}
    (h : e.processLine (.declining σ) site content s = (.ok (.includeFile target), s', e')) :
    s.conditions.isActive = true ∧ s' = s ∧ e' = e := by
  obtain ⟨expr, hkind, hstring⟩ := exists_of_processLine_includeFile h
  rw [← and_assoc]
  constructor
  · rw [processLine_eq, hkind] at h
    dsimp only at h
    split at h
    · cases h
    · simp only [Directive.isConditional, Bool.false_eq_true, if_false] at h
      split at h
      · rename_i hactive
        have hkeeps := KeepsScope.plain (.declining σ) site (.inr ⟨expr, rfl⟩) s e
        rw [h] at hkeeps
        exact ⟨hactive, hkeeps⟩
      · cases h
  · unfold EngineM.string at hstring
    rcases hvalue : (EngineM.value (.declining σ) site expr).run e with ⟨r, e₁⟩
    have he₁ := EngineM.engine_of_value hvalue
    cases r with
    | error fault =>
        rw [run_bind_of_error hvalue] at hstring
        cases hstring
    | ok v =>
        rw [run_bind_of_ok hvalue] at hstring
        cases v with
        | str text =>
            cases hstring
            exact he₁
        | _ => cases hstring

end

/-! ## Runs of such lines -/

namespace Source

variable {host : Host σ} {t t' : FileTree} {options : Options}
  {descend descend' : Trail → Path → Output → RunM σ Output} {trail trail' : Trail}
  {path path' : Path} {index index' : Nat} {s s' s₁ : Scope} {out out₁ : Output}
  {e e' e₁ : Engine σ} {fileEnd : FileEnd}

theorem keeps_of_singleton {line : Line} (hline : LineKind.concernsFile line.content = false)
    (h : (followLines host t options descend trail path index [line] s out).run e =
      (.ok (fileEnd, s₁, out₁), e₁)) : fileEnd = .completed ∧ s.Keeps s₁ := by
  have hnot {d : Directive} (hd : d.concernsFile = true) :
      LineKind.classify line.content ≠ .ok (.directive d) := by
    intro hkind
    simp [LineKind.concernsFile, hkind, hd] at hline
  rw [run_followLines_singleton] at h
  rcases hstep : e.processLine host ⟨path, index⟩ line.content s with ⟨r, s₂, e₂⟩
  rw [hstep] at h
  cases r with
  | error fault => cases h
  | ok step =>
      have hkeeps := keeps_of_processLine hline hstep
      cases step with
      | emit text =>
          cases h
          exact ⟨rfl, hkeeps⟩
      | skip =>
          cases h
          exact ⟨rfl, hkeeps⟩
      | exclude =>
          obtain ⟨expr, hkind⟩ := exists_of_processLine_exclude hstep
          exact absurd hkind (hnot rfl)
      | includeFile target =>
          obtain ⟨expr, hkind, -⟩ := exists_of_processLine_includeFile hstep
          exact absurd hkind (hnot rfl)

/-- Lines that do not concern the file are followed to the last, and leave its switches alone. -/
theorem keeps_of_followLines {lines : List Line}
    (hlines : ∀ line ∈ lines, LineKind.concernsFile line.content = false)
    (h : (followLines host t options descend trail path index lines s out).run e =
      (.ok (fileEnd, s₁, out₁), e₁)) : fileEnd = .completed ∧ s.Keeps s₁ := by
  induction lines generalizing index s out e with
  | nil =>
      cases h
      exact ⟨rfl, .refl _⟩
  | cons line rest ih =>
      obtain ⟨hline, hrest⟩ := List.forall_mem_cons.mp hlines
      rcases followLines_cons_cases h with ⟨hfirst, -⟩ | ⟨s₂, out₂, e₂, hfirst, hothers⟩
      · exact keeps_of_singleton hline hfirst
      · obtain ⟨hend, hkeeps⟩ := ih hrest hothers
        exact ⟨hend, (keeps_of_singleton hline hfirst).2.trans hkeeps⟩

/-- The lines of a file that closes all its blocks do the same on top of blocks that count, and
leave these as they are. -/
theorem exists_of_file (hactive : s.conditions.isActive = true) (houtput : s.outputOn = true)
    (hcomment : s.commentNext = false) {lines : List Line}
    (hlines : ∀ line ∈ lines, LineKind.concernsFile line.content = false)
    (hreads : ∀ line ∈ lines, LineKind.readsSite line.content = false) (he : e.Agree e')
    (h : (followLines (.declining σ) t options descend trail path 0 lines {} out).run e =
      (.ok (fileEnd, s₁, out₁), e₁))
    (hclosed : fileEnd = .completed → s₁.conditions.blocks = []) :
    ∃ s' e₁', (followLines (.declining σ) t' options descend' trail' path' index lines s out).run
        e' = (.ok (.completed, s', out₁), e₁') ∧
      (s'.conditions = s.conditions ∧ s'.outputOn = s.outputOn ∧
        s'.commentNext = s.commentNext) ∧ e₁.Agree e₁' := by
  obtain ⟨hexcluded, hbase⟩ : s.conditions.excluded = false ∧
      s.conditions.blocks.head?.all Block.active = true := by
    simpa [Conditions.isActive] using hactive
  have hincludes : (∃ line ∈ lines, ∃ expr,
      LineKind.classify line.content = .ok (.directive (.includeFile expr))) →
      IncludesAlike t t' options descend descend' trail trail' path path' := by
    rintro ⟨line, hline, expr, hkind⟩
    have hquiet := hlines line hline
    rw [LineKind.concernsFile, hkind] at hquiet
    cases hquiet
  have hsites : ∀ line ∈ lines, LineKind.readsSite line.content = true →
      path = path' ∧ 0 = index := by
    intro line hline hread
    rw [hreads line hline] at hread
    cases hread
  obtain ⟨s', e₁', hrun, hover, he₁⟩ := linesAlike_of_over hbase hsites hincludes
    (.start hexcluded houtput hcomment) he fileEnd s₁ out₁ e₁ h
  obtain ⟨rfl, hkeeps⟩ := keeps_of_followLines hlines hrun
  refine ⟨s', e₁', hrun, ⟨?_, hkeeps.outputOn, ?_⟩, he₁⟩
  · have hblocks := hover.blocks_eq (hclosed rfl)
    have hexcluded' := hkeeps.excluded
    generalize s.conditions = c, s'.conditions = c' at hblocks hexcluded'
    cases c
    cases c'
    cases hblocks
    cases hexcluded'
    rfl
  · rw [hkeeps.commentNext hcomment, hcomment]

/-! ## The line of an included file -/

/-- Whether a line asks for the file at a path, where lines are written and the next is not to
become a comment. -/
def includesFile (t : FileTree) (options : Options) (site : Site) (content : String) (path : Path)
    (s : Scope) (e : Engine σ) : Bool :=
  s.outputOn && !s.commentNext &&
    match e.processLine (.declining σ) site content s with
    | (.ok (.includeFile target), _, _) =>
      (findInclude t options site.file target).toOption == some path
    | _ => false

theorem exists_of_includesFile {site : Site} {content : String}
    (h : includesFile t options site content path s e = true) :
    s.outputOn = true ∧ s.commentNext = false ∧ ∃ target s' e',
      e.processLine (.declining σ) site content s = (.ok (.includeFile target), s', e') ∧
        findInclude t options site.file target = .ok path := by
  simp only [includesFile, Bool.and_eq_true, Bool.not_eq_true'] at h
  obtain ⟨⟨houtput, hcomment⟩, hasks⟩ := h
  split at hasks
  · rename_i target s' e' hstep
    refine ⟨houtput, hcomment, target, s', e', hstep, ?_⟩
    cases hfind : findInclude t options site.file target with
    | error fault =>
        rw [hfind] at hasks
        cases hasks
    | ok found =>
        rw [hfind, beq_iff_eq] at hasks
        rw [Option.some.inj hasks]
  · cases hasks

section

variable {root file : Path} {included : String} {includedBom : Bool} {line : Line}

/-- Where a line includes a file, the lines of the file do the same. -/
theorem linesAlike_of_includesFile (hs : s.Over [] s') (he : e.Agree e')
    (hincluded : readText t options file = .ok ⟨included, includedBom⟩)
    (hfile : ∀ l ∈ Text.lines included, LineKind.concernsFile l.content = false)
    (hreads : ∀ l ∈ Text.lines included, LineKind.readsSite l.content = false)
    (hline : includesFile t options ⟨path, index⟩ line.content file s e = true) :
    LinesAlike []
      ((followLines (.declining σ) t options (Source.descend (.declining σ) t options) trail path
        index [line] s out).run e)
      ((followLines (.declining σ) t' options descend' trail' path' index' (Text.lines included) s'
        out).run e') := by
  intro fileEnd s₁ out₁ e₁ h
  obtain ⟨houtput, hcomment, target, s₂, e₂, hstep, hfind⟩ := exists_of_includesFile hline
  obtain ⟨hactive, rfl, rfl⟩ := eq_of_processLine_includeFile hstep
  rw [run_followLines_singleton, hstep] at h
  dsimp only at h
  cases hopen : openInclude t options (trail.atLine index) path target with
  | error fault =>
      rw [hopen] at h
      cases h
  | ok found =>
      rw [hopen] at h
      obtain rfl : file = found := by
        have hfind' := (of_openInclude hopen).1
        rw [hfind] at hfind'
        exact Except.ok.inj hfind'
      dsimp only at h
      rcases hdescend : (Source.descend (.declining σ) t options
        ((trail.atLine index).enter file) file out).run e₂ with ⟨d | out₂, e₃⟩
      · rw [hdescend] at h
        cases h
      · rw [hdescend] at h
        cases h
        obtain ⟨fileEnd', bom', hprocess⟩ := exists_of_descendWithin hdescend
        rw [process_succ] at hprocess
        obtain ⟨-, s₃, hlines, hclosed⟩ := (run_processWith_iff hincluded).mp hprocess
        have hactive' : s'.conditions.isActive = true := by
          rw [hs.conditions.isActive rfl, hactive]
        obtain ⟨s₁', e₁', hrun, ⟨hconditions, houtput', hcomment'⟩, he₁⟩ :=
          exists_of_file hactive' (hs.outputOn.trans houtput) (hs.commentNext.trans hcomment)
            hfile hreads he hlines hclosed
        refine ⟨s₁', e₁', hrun, ⟨?_, ?_, ?_⟩, he₁⟩
        · rw [hconditions]
          exact hs.conditions
        · rw [houtput', hs.outputOn]
        · rw [hcomment', hs.commentNext]

/-- The lines of a root file do the same with a text in the place of the line that includes it. -/
theorem linesAlike_of_inlined {bytes : List UInt8} (htree : FileTree.Rewrites t t' root bytes)
    {before after : List Line} (hincluded : readText t options file = .ok ⟨included, includedBom⟩)
    (hfile : ∀ l ∈ Text.lines included, LineKind.concernsFile l.content = false)
    (hreads : ∀ l ∈ Text.lines included ++ after, LineKind.readsSite l.content = false)
    (hline : ∀ s out e₁, Follows (.declining σ) t options (.root root e) before s out e₁ →
      includesFile t options ⟨root, before.length⟩ line.content file s e₁ = true) :
    LinesAlike []
      ((followLines (.declining σ) t options (Source.descend (.declining σ) t options)
        (Trail.enter [] root) root 0 (before ++ ([line] ++ after)) {} {}).run e)
      ((followLines (.declining σ) t' options (Source.descend (.declining σ) t' options)
        (Trail.enter [] root) root 0 (before ++ (Text.lines included ++ after)) {} {}).run e) := by
  have hincludes : IncludesAlike t t' options (Source.descend (.declining σ) t options)
      (Source.descend (.declining σ) t' options) (Trail.enter [] root) (Trail.enter [] root) root
      root := by
    unfold Source.descend
    rw [htree.files]
    refine includesAlike_of_process htree (mirrors_process htree) ?_ List.mem_cons_self
    exact congrArg (· :: []) (htree.outline.canonical root)
  refine LinesAlike.append ?_ fun s₁ s₁' out₁ e₁ e₁' hbefore hs₁ he₁ => LinesAlike.append ?_
    fun s₂ s₂' out₂ e₂ e₂' _ hs₂ he₂ => ?_
  · have hstart : Scope.Over [] {} {} := .start (s := {}) rfl rfl rfl
    exact linesAlike_of_over rfl (fun _ _ _ => ⟨rfl, rfl⟩) (fun _ => hincludes) hstart (.refl e)
  · have hat := hline s₁ out₁ e₁ hbefore
    rw [← Nat.zero_add before.length] at hat
    exact linesAlike_of_includesFile hs₁ he₁ hincluded hfile
      (fun l hl => hreads l (List.mem_append_left _ hl)) hat
  · refine linesAlike_of_over rfl (fun l hl hread => ?_) (fun _ => hincludes) hs₂ he₂
    rw [hreads l (List.mem_append_right _ hl)] at hread
    cases hread

end

/-! ## Inlining -/

theorem exists_of_readText {decoded : Decoded} (h : readText t options path = .ok decoded) :
    ∃ bytes, t.read path = .ok bytes ∧ options.encoding.decode bytes = .ok decoded := by
  unfold readText at h
  split at h
  · cases h
  · rename_i bytes hbytes
    split at h
    · cases h
    · rename_i decoded' hdecode
      cases h
      exact ⟨bytes, hbytes, hdecode⟩

theorem encodes_of_readText {decoded : Decoded} (h : readText t options path = .ok decoded) :
    ∀ c ∈ decoded.text.toList, options.encoding.encodes c = true := by
  obtain ⟨bytes, -, hdecode⟩ := exists_of_readText h
  exact Encoding.encodes_of_decode hdecode

theorem exists_rewritten {old new : String} {bom : Bool}
    (hread : readText t options path = .ok ⟨old, bom⟩)
    (hnew : ∀ c ∈ new.toList, options.encoding.encodes c = true)
    (hmark : bom = false → new.toList.head? ≠ some '\uFEFF') :
    ∃ bytes t', options.encoding.encode new bom = .ok bytes ∧ t.write path bytes = .ok t' ∧
      FileTree.Rewrites t t' path bytes ∧ readText t' options path = .ok ⟨new, bom⟩ := by
  obtain ⟨oldBytes, hold, hdecode⟩ := exists_of_readText hread
  obtain ⟨bytes, hencode⟩ := Encoding.exists_of_encodes hnew bom
  obtain ⟨t', hwrite, htree⟩ := FileTree.exists_of_read hold bytes
  refine ⟨bytes, t', hencode, hwrite, htree, ?_⟩
  have hutf8 : bom = true → options.encoding = .utf8 :=
    fun hbom => Encoding.eq_utf8_of_bom hdecode hbom
  rw [readText, htree.content]
  dsimp only
  rw [Encoding.decode_of_encode hutf8 hmark hencode]

/-- A line that includes a file can be replaced by the text of the file: the root file becomes the
same text. -/
theorem preprocess_inlined {root file : Path} {before after included : String} {line : Line}
    {bom includedBom : Bool}
    (hroot : readText t options root = .ok ⟨before ++ line.text ++ after, bom⟩)
    (hincluded : readText t options file = .ok ⟨included, includedBom⟩)
    (hone : Text.lines line.text = [line])
    (hpieces : Text.wholeLines [before, line.text, after] = true)
    (hpieces' : Text.wholeLines [before, included, after] = true)
    (hmark : bom = false → (before ++ included ++ after).toList.head? ≠ some '\uFEFF')
    (hfile : ∀ l ∈ Text.lines included, LineKind.concernsFile l.content = false)
    (hreads : ∀ l ∈ Text.lines included ++ Text.lines after,
      LineKind.readsSite l.content = false)
    (hline : ∀ s out e₁,
      Follows (.declining σ) t options (.root root e) (Text.lines before) s out e₁ →
        includesFile t options ⟨root, (Text.lines before).length⟩ line.content file s e₁ = true)
    {text : String} {outname : Option String} {hadBom : Bool}
    (h : (preprocess (.declining σ) t options root).run e =
      (.ok (.text text hadBom outname), e₁)) :
    ∃ bytes t' e₂, options.encoding.encode (before ++ included ++ after) bom = .ok bytes ∧
      t.write root bytes = .ok t' ∧
      readText t' options root = .ok ⟨before ++ included ++ after, bom⟩ ∧
      (preprocess (.declining σ) t' options root).run e =
        (.ok (.text text hadBom outname), e₂) := by
  have hencodes : ∀ c ∈ (before ++ included ++ after).toList,
      options.encoding.encodes c = true := by
    intro c hc
    have hold := encodes_of_readText hroot c
    have hother := encodes_of_readText hincluded c
    simp only [String.toList_append, List.mem_append] at hc hold
    tauto
  have hlines : Text.lines (before ++ line.text ++ after) =
      Text.lines before ++ ([line] ++ Text.lines after) := by
    rw [← hone]
    simpa [String.append_assoc] using Text.lines_of_wholeLines hpieces
  have hlines' : Text.lines (before ++ included ++ after) =
      Text.lines before ++ (Text.lines included ++ Text.lines after) := by
    simpa [String.append_assoc] using Text.lines_of_wholeLines hpieces'
  obtain ⟨bytes, t', hencode, hwrite, htree, hroot'⟩ := exists_rewritten hroot hencodes hmark
  obtain ⟨fileEnd, out, hprocess, hwritten, hfinish, rfl⟩ := run_preprocess_text_iff.mp h
  rw [process_root, run_processWith_iff hroot, hlines] at hprocess
  obtain ⟨hbom, s, hrun, hclosed⟩ := hprocess
  obtain ⟨s', e₂, hrun', hs, he⟩ :=
    linesAlike_of_inlined htree hincluded hfile hreads hline fileEnd s out e₁ hrun
  refine ⟨bytes, t', e₂, hencode, hwrite, hroot', run_preprocess_text_iff.mpr ?_⟩
  refine ⟨fileEnd, out, ?_, hwritten, hfinish, he.outname.symm⟩
  rw [process_root, run_processWith_iff hroot', hlines']
  exact ⟨hbom, s', hrun', fun hend => hs.blocks_eq (hclosed hend)⟩

/-- What lines lead to can be checked by following them. -/
theorem Follows.check {v : Visit σ} {before : List Line}
    (h : Follows host t options v before s out e) {p : Scope → Engine σ → Bool}
    (hp : let r := (followLines host t options (Source.descend host t options) v.trail v.path 0
        before {} v.out).run v.engine
      (r.1.toOption.all fun linesEnd => p linesEnd.2.1 r.2) = true) : p s e = true := by
  unfold Follows at h
  rw [h] at hp
  exact hp

/-- A file that defines a variable and writes a line in the branch of a block. -/
def branching : String :=
  "//#define x=1\n//#ifdef y\na\n//#else\nb\n//#endif\n"

/-- A file that includes it inside a block, and uses the variable. -/
def includesBranching : FileTree where
  entries :=
    [(["main"], .file ("//#ifdef z\n//#else\n//#include \"p\"\n/*$x$*/\n//#endif\n".toList.map
        fun c => .ofNat c.toNat)),
      (["p"], .file (branching.toList.map fun c => .ofNat c.toNat))]

theorem preprocess_branching_inlined :
    let host : Host Unit := .declining Unit
    let e : Engine Unit := ⟨⟨[.store "file" []], false⟩, (), none, #[]⟩
    let before := "//#ifdef z\n//#else\n"
    let line : Line := ⟨"//#include \"p\"", "\n"⟩
    let after := "/*$x$*/\n//#endif\n"
    readText includesBranching {} ⟨"main"⟩ = .ok ⟨before ++ line.text ++ after, false⟩ ∧
      readText includesBranching {} ⟨"p"⟩ = .ok ⟨branching, false⟩ ∧
      (∃ e₁, (preprocess host includesBranching {} ⟨"main"⟩).run e =
        (.ok (.text "b\n1\n" false none), e₁)) ∧
      ∃ bytes t' e₂, Encoding.encode .utf8 (before ++ branching ++ after) false = .ok bytes ∧
        includesBranching.write ⟨"main"⟩ bytes = .ok t' ∧
        readText t' {} ⟨"main"⟩ = .ok ⟨before ++ branching ++ after, false⟩ ∧
        (preprocess host t' {} ⟨"main"⟩).run e = (.ok (.text "b\n1\n" false none), e₂) := by
  intro host e before line after
  have hroot : readText includesBranching {} ⟨"main"⟩ =
      .ok ⟨before ++ line.text ++ after, false⟩ := by with_unfolding_all rfl
  have hincluded : readText includesBranching {} ⟨"p"⟩ = .ok ⟨branching, false⟩ := by
    with_unfolding_all rfl
  have hline : ∀ s out e₁,
      Follows host includesBranching {} (.root ⟨"main"⟩ e) (Text.lines before) s out e₁ →
        includesFile includesBranching {} ⟨⟨"main"⟩, (Text.lines before).length⟩ line.content ⟨"p"⟩
          s e₁ = true := by
    intro s out e₁ hbefore
    exact hbefore.check (p := includesFile includesBranching {}
      ⟨⟨"main"⟩, (Text.lines before).length⟩ line.content ⟨"p"⟩) (by decide +kernel)
  have htext : ((preprocess host includesBranching {} ⟨"main"⟩).run e).1.toOption =
      some (.text "b\n1\n" false none) := by decide +kernel
  have hone : Text.lines line.text = [line] := by decide +kernel
  have hpieces : Text.wholeLines [before, line.text, after] = true := by decide +kernel
  have hpieces' : Text.wholeLines [before, branching, after] = true := by decide +kernel
  have hmark : (before ++ branching ++ after).toList.head? ≠ some '\uFEFF' := by decide +kernel
  have hfile : ∀ l ∈ Text.lines branching, LineKind.concernsFile l.content = false := by
    decide +kernel
  have hreads : ∀ l ∈ Text.lines branching ++ Text.lines after,
      LineKind.readsSite l.content = false := by decide +kernel
  rcases hrun : (preprocess host includesBranching {} ⟨"main"⟩).run e with ⟨d | outcome, e₁⟩
  · rw [hrun] at htext
    cases htext
  · rw [hrun] at htext
    cases htext
    exact ⟨hroot, hincluded, ⟨e₁, rfl⟩, preprocess_inlined hroot hincluded hone hpieces hpieces'
      (fun _ => hmark) hfile hreads hline hrun⟩

end Source

end Preprocessor
