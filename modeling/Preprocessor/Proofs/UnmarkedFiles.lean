/-
A file without directives comes out as it went in.

A line that starts with no mark and holds none is text, and its substitution is the line itself,
so it is emitted as it stands with its end.  The lines of a file put together are its text, and the
text is stored as the bytes it was read from.
-/
import Preprocessor.Proofs.EncodingRoundTrip
import Preprocessor.Proofs.FileChanges
import Preprocessor.Proofs.Inclusion
import Preprocessor.Proofs.LineSplitting
import Preprocessor.Proofs.LineSteps
import Preprocessor.Proofs.SessionTrace
import Preprocessor.Proofs.TextCutting

namespace Preprocessor

variable {σ : Type}

/-! ## One line -/

/-- A line that is no directive and no toggle line, and holds no marker. -/
structure Unmarked (content : String) : Prop where
  noDirective : ¬ "//#".toList <+: content.toList.dropWhile Text.isBlank
  noToggle : ¬ "//$".toList <+: content.toList.dropWhile Text.isBlank
  noMarker : ¬ "/*$".toList <:+: content.toList

namespace Unmarked

variable {content : String}

theorem classify (h : Unmarked content) : LineKind.classify content = .ok .text := by
  have hafter {mark rest : List Char} (hmark : ¬ mark <+: rest) : Text.after? mark rest = none := by
    cases hsome : Text.after? mark rest with
    | none => rfl
    | some body => exact absurd ⟨body, (Text.eq_of_after? hsome).symm⟩ hmark
  have hdirective : LineKind.directiveBody? content = none := hafter h.noDirective
  have htoggle : Text.after? ['/', '/', '$'] (content.toList.dropWhile Text.isBlank) = none :=
    hafter h.noToggle
  have hraw : ¬ ['/', '/', '$', '$'] <+: content.toList.dropWhile Text.isBlank := by
    rintro ⟨body, hbody⟩
    exact h.noToggle ⟨'$' :: body, hbody⟩
  unfold LineKind.classify
  dsimp only
  rw [hdirective, hafter hraw, htoggle]

theorem cut_openMark (h : Unmarked content) : Text.cut Inline.openMark content.toList = none :=
  Text.cut_eq_none_iff.mpr h.noMarker

theorem run_substitute (h : Unmarked content) (value : String → Hosted σ Fault String) (s : σ) :
    (Inline.substitute value content).run s = (.ok content, s) := by
  rw [Inline.substitute, Inline.substituteChars_of_unmarked h.cut_openMark]
  change (Except.ok (String.ofList content.toList), s) = _
  rw [String.ofList_toList]

theorem run_substituted (h : Unmarked content) (host : Host σ) (site : Site) (e : Engine σ) :
    (EngineM.substituted host site content).run e = (.ok content, e) := by
  unfold EngineM.substituted EngineM.ofHosted
  rw [ExceptT.run_mk]
  dsimp only
  rw [h.run_substitute]

theorem processLine (h : Unmarked content) (host : Host σ) (site : Site) {s : Scope}
    (hactive : s.conditions.isActive = true) (hon : s.outputOn = true)
    (hcomment : s.commentNext = false) (e : Engine σ) :
    e.processLine host site content s =
      (.ok (.emit content), { s with emitted := s.emitted + 1 }, e) := by
  rw [processLine_eq, h.classify, hactive, hon]
  dsimp only
  rw [Bool.not_true, Bool.false_and, if_neg Bool.false_ne_true, Bool.true_and, if_pos rfl,
    run_bind_of_ok (run_toLine (h.run_substituted host site e) s)]
  change (Except.ok (Step.emit (if s.commentNext then "//" ++ content else content)),
    { s with emitted := s.emitted + 1, commentNext := false }, e) = _
  cases s
  cases hon
  cases hcomment
  rfl

end Unmarked

/-! ## Whole files -/

namespace Source

variable {host : Host σ} {t : FileTree} {options : Options}

/-- Unmarked lines are written as they stand. -/
theorem run_followLines_of_unmarked (descend : Trail → Path → Output → RunM σ Output)
    (trail : Trail) (path : Path) (index : Nat) {lines : List Line}
    (h : ∀ line ∈ lines, Unmarked line.content) (n : Nat) (out : Output) (e : Engine σ) :
    (followLines host t options descend trail path index lines ⟨{}, true, false, n⟩ out).run e =
      (.ok (.completed, ⟨{}, true, false, n + lines.length⟩,
        ⟨out.text ++ Text.join lines, out.emitted + lines.length⟩), e) := by
  induction lines generalizing index n out with
  | nil => simp [followLines]; rfl
  | cons line rest ih =>
      obtain ⟨hline, hrest⟩ := List.forall_mem_cons.mp h
      rw [run_followLines_cons, run_followLines_singleton,
        hline.processLine host ⟨path, index⟩ rfl rfl rfl e]
      dsimp only
      rw [ih (index + 1) hrest]
      simp [write, Line.text, String.append_assoc, Nat.add_assoc, Nat.add_comm rest.length 1]

theorem run_preprocess_of_unmarked {path : Path} {decoded : Decoded}
    (hread : readText t options path = .ok decoded) (hcomments : options.removeComments = false)
    (hlines : ∀ line ∈ Text.lines decoded.text, Unmarked line.content) (e : Engine σ) :
    (preprocess host t options path).run e =
      (.ok (.text decoded.text decoded.bom e.outname), e) := by
  have hfile : (process host t options (t.files.length + 1) (Trail.enter [] path) path {}).run e =
      (.ok (.completed, decoded.bom,
        ⟨"" ++ Text.join (Text.lines decoded.text), 0 + (Text.lines decoded.text).length⟩), e) := by
    rw [process_succ, processWith, hread]
    exact run_bind_of_ok (run_followLines_of_unmarked _ _ path 0 hlines 0 {} e)
  have hfinish : finish options path decoded.text = .ok decoded.text := by
    rw [finish, hcomments]
    rfl
  have hcompleted : FileEnd.completed ≠ .excluded := by decide
  rw [preprocess, preprocessWithin, run_bind_of_ok hfile]
  dsimp only
  rw [if_neg (fun h => hcompleted h.1), Text.join_lines, String.empty_append, hfinish]
  rfl

end Source

namespace Session

theorem run_processFile_of_text (s : Session σ) (fixed : Fixed) (started : Moment)
    (source : SourceFile) {state : SessionState σ} {text : String} {bom : Bool} {e : Engine σ}
    (h : (Source.preprocess s.host state.tree s.config.options source.path).run
      { env := .forFile fixed.globals fixed.properties s.process started s.config.unknownAsFalse
        host := state.host, log := state.log } = (.ok (.text text bom none), e)) :
    (s.processFile fixed started source).run state =
      let (r, t) := commitOutput s.config s.disk source
        (s.config.destination.join source.relative) text bom state.tree
      ((s.config.destination.join source.relative, r),
        { state with host := e.host, log := e.log, tree := t }) :=
  run_processFile_of_output h

end Session

/-- A file that has neither directives nor markers comes out as it went in, if comments are kept
and the encodings agree, whether or not the ends of lines are kept: its output is its text, and
exactly its bytes are committed to its destination. -/
theorem Session.processFile_of_unmarked (s : Session σ) (fixed : Fixed) (started : Moment)
    (source : SourceFile) (state : SessionState σ) {bytes : List UInt8} {decoded : Decoded}
    (hread : state.tree.read source.path = .ok bytes)
    (hdecode : s.config.sourceEncoding.decode bytes = .ok decoded)
    (hencoding : s.config.targetEncoding = s.config.sourceEncoding)
    (hcomments : s.config.comments = .keep)
    (hlines : ∀ line ∈ Text.lines decoded.text,
      ¬ "//#".toList <+: line.content.toList.dropWhile Text.isBlank ∧
        ¬ "//$".toList <+: line.content.toList.dropWhile Text.isBlank)
    (hmarker : ¬ "/*$".toList <:+: decoded.text.toList) :
    (∀ e : Engine σ, e.outname = none →
      (Source.preprocess s.host state.tree s.config.options source.path).run e =
        (.ok (.text decoded.text decoded.bom none), e)) ∧
    (s.processFile fixed started source).run state =
      match state.tree.commit s.disk s.config.commitOptions
        (s.config.destination.join source.relative) bytes with
      | (.ok commit, t) =>
        ((s.config.destination.join source.relative, .ok (statusOf commit)),
          { state with tree := t })
      | (.error fault, t) =>
        ((s.config.destination.join source.relative, .error { fault := fault }),
          { state with tree := t }) := by
  have hunmarked : ∀ line ∈ Text.lines decoded.text, Unmarked line.content := by
    intro line hline
    refine ⟨(hlines line hline).1, (hlines line hline).2, fun hinfix => hmarker ?_⟩
    exact hinfix.trans (Text.content_infix hline)
  have hsource : Source.readText state.tree s.config.options source.path = .ok decoded := by
    rw [Source.readText, hread]
    dsimp only
    rw [Config.options, hdecode]
  have hkeep : s.config.options.removeComments = false := by
    rw [Config.options, hcomments]
    rfl
  have hrun (e : Engine σ) (he : e.outname = none) :
      (Source.preprocess s.host state.tree s.config.options source.path).run e =
        (.ok (.text decoded.text decoded.bom none), e) := by
    rw [Source.run_preprocess_of_unmarked hsource hkeep hunmarked, he]
  have hbytes : s.config.targetEncoding.encode decoded.text
      (decoded.bom && s.config.targetEncoding == .utf8) = .ok bytes := by
    rw [hencoding]
    exact Encoding.encode_of_decode hdecode
  refine ⟨hrun, ?_⟩
  rw [run_processFile_of_text s fixed started source (hrun _ rfl), commitOutput, hbytes]
  dsimp only
  rcases state.tree.commit s.disk s.config.commitOptions
    (s.config.destination.join source.relative) bytes with ⟨fault | commit, t⟩ <;> rfl

/-- A file with a byte order mark and the character of one, three ends of lines, a blank that is
not ASCII, and no end of the last line. -/
def twiceMarked : List UInt8 :=
  [0xEF, 0xBB, 0xBF, 0xEF, 0xBB, 0xBF, 0x61, 0x0D, 0x0A, 0xC2, 0xA0, 0x2F, 0x2F, 0x78, 0x0D, 0x0A,
    0x0A, 0x0D, 0xC3, 0xA9]

theorem Session.processFile_twiceMarked :
    let s : Session Unit := { config := { keepLines := true }, host := .declining Unit }
    let source : SourceFile := ⟨⟨"src/a"⟩, ⟨"a"⟩⟩
    let state : SessionState Unit :=
      { tree := { entries := [(["src"], .directory), (["a", "src"], .file twiceMarked)] }
        host := () }
    let decoded : Decoded := ⟨"\uFEFFa\r\n\u00A0//x\r\n\n\ré", true⟩
    let o := (s.processFile ⟨[], []⟩ ⟨0, 0⟩ source).run state
    Encoding.decode .utf8 twiceMarked = .ok decoded ∧
      state.tree.hasContent source.path twiceMarked = true ∧
      o.1.1 = ⟨"preprocessed/a"⟩ ∧ o.2.tree.hasContent ⟨"preprocessed/a"⟩ twiceMarked = true := by
  intro s source state decoded o
  have hdecode : Encoding.decode .utf8 twiceMarked = .ok decoded :=
    Encoding.decode_of_encode (fun _ => rfl) nofun (by with_unfolding_all rfl)
  have hcontent : state.tree.hasContent source.path twiceMarked = true := by decide +kernel
  have hlines : ∀ line ∈ Text.lines decoded.text,
      ¬ "//#".toList <+: line.content.toList.dropWhile Text.isBlank ∧
        ¬ "//$".toList <+: line.content.toList.dropWhile Text.isBlank := by
    decide +kernel
  have hmarker : ¬ "/*$".toList <:+: decoded.text.toList := by decide +kernel
  have ho : o = _ := (processFile_of_unmarked s ⟨[], []⟩ ⟨0, 0⟩ source state
    (FileTree.read_of_hasContent hcontent) hdecode rfl rfl hlines hmarker).2
  refine ⟨hdecode, hcontent, ?_⟩
  rw [ho]
  decide +kernel

end Preprocessor
