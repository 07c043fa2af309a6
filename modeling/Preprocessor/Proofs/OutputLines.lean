/-
The lines of the output.

What is written for the lines that a run follows are pieces, so the lines of the output are known.
Texts that were emitted for different lines are on different lines of the output, unless a file
that does not end its last line is included and the next text runs on from it.  With lines kept,
the text for a line is at the number of that line, unless the carriage return of one line and the
line feed of the next one, which writes nothing else, have become one end before it.
-/
import Preprocessor.Proofs.FollowedLines
import Preprocessor.Proofs.Inlining

namespace Preprocessor

variable {σ : Type}

namespace Followed

theorem contents_pieces (options : Options) (fs : List (Followed σ)) :
    Text.contents (pieces options fs) = (fs.filterMap emitted?).filter (· != "") := by
  induction fs with
  | nil => rfl
  | cons f fs ih =>
      rcases f with ⟨site, line, e, step⟩
      cases step with
      | emit text =>
          have hpieces : pieces options (⟨site, line, e, .emit text⟩ :: fs) =
              ⟨text, line.terminator⟩ :: pieces options fs := rfl
          have hemitted : (⟨site, line, e, .emit text⟩ :: fs).filterMap emitted? =
              text :: fs.filterMap emitted? := rfl
          rw [hpieces, hemitted, Text.contents_cons, ih]
          by_cases htext : text = ""
          · simp [htext]
          · simp [htext]
      | skip =>
          have hemitted : (⟨site, line, e, .skip⟩ :: fs).filterMap emitted? =
              fs.filterMap emitted? := rfl
          rw [pieces_cons, piece?, hemitted, ← ih]
          dsimp only
          split
          · exact Text.contents_cons _ _
          · rfl
      | includeFile target => exact ih
      | exclude => exact ih

/-- What is written for a line that stays in its file, if the lines are kept. -/
def kept (f : Followed σ) : Line :=
  ⟨f.emitted?.getD "", f.line.terminator⟩

theorem pieces_eq_map_kept {options : Options} (hkeep : options.keepLines = true)
    {fs : List (Followed σ)} (hstays : ∀ f ∈ fs, f.staysInFile = true) :
    pieces options fs = fs.map kept := by
  induction fs with
  | nil => rfl
  | cons f fs ih =>
      obtain ⟨hf, hfs⟩ := List.forall_mem_cons.mp hstays
      rw [pieces_cons, List.map_cons, ih hfs]
      rcases f with ⟨site, line, e, step⟩
      cases step with
      | emit text => rfl
      | skip =>
          rw [piece?, if_pos hkeep]
          rfl
      | includeFile target => cases hf
      | exclude => cases hf

end Followed

namespace Source

variable {host : Host σ} {t : FileTree} {options : Options} {root : Path}
  {e e' : Engine σ} {text : String} {bom : Bool} {outname : Option String}

/-- The texts that a run emits, in their order, without the empty ones. -/
def emissions (host : Host σ) (t : FileTree) (options : Options) (root : Path) (e : Engine σ) :
    List String :=
  ((followed host t options root e).filterMap Followed.emitted?).filter (· != "")

/-! ## Texts on lines of their own -/

/-- The texts that were emitted are the lines of the output that are not empty if and only if none
of them runs on into another. -/
theorem contents_eq_emissions_iff (hcomments : options.removeComments = false)
    (hinserted : ∀ f ∈ followed host t options root e, ∀ v ∈ f.inserted host,
      Text.unbroken v.toList = true)
    (h : (preprocess host t options root).run e = (.ok (.text text bom outname), e')) :
    Text.contents (Text.lines text) = emissions host t options root e ↔
      Text.runsOn (Followed.pieces options (followed host t options root e)) = false := by
  rw [text_eq_join_pieces hcomments h, emissions, ← Followed.contents_pieces options]
  exact Text.contents_lines_eq_iff (isPiece_of_mem_pieces hinserted)

/-- A file that includes another, which does not end its only line, in front of some text. -/
def includesUnended (after : String) : FileTree where
  entries :=
    let file (text : String) := Entry.file (text.toList.map fun c => .ofNat c.toNat)
    [(["Root.java"], file ("//#include \"part.inc\"\n" ++ after)), (["part.inc"], file "p")]

/-- An empty line after the included file keeps the texts apart. -/
theorem contents_eq_emissions_includesUnended :
    let host : Host Unit := .declining Unit
    let e : Engine Unit := ⟨⟨[.store "local" []], false⟩, (), none, #[]⟩
    let t := includesUnended "\nafter\n"
    ((preprocess host t {} ⟨"Root.java"⟩).run e).1 = .ok (.text "p\nafter\n" false none) ∧
      Text.contents (Text.lines "p\nafter\n") = emissions host t {} ⟨"Root.java"⟩ e := by
  intro host e t
  have htext : ((preprocess host t {} ⟨"Root.java"⟩).run e).1 =
      .ok (.text "p\nafter\n" false none) := eq_ok_of_toOption (by decide +kernel)
  have hinserted : ∀ f ∈ followed host t {} ⟨"Root.java"⟩ e, ∀ v ∈ f.inserted host,
      Text.unbroken v.toList = true := by decide +kernel
  have hruns : Text.runsOn (Followed.pieces {} (followed host t {} ⟨"Root.java"⟩ e)) = false := by
    decide +kernel
  exact ⟨htext, (contents_eq_emissions_iff rfl hinserted (Prod.ext htext rfl)).mpr hruns⟩

/-- Without it, the text of the included file and the next one are on one line. -/
theorem contents_ne_emissions_includesUnended :
    let host : Host Unit := .declining Unit
    let e : Engine Unit := ⟨⟨[.store "local" []], false⟩, (), none, #[]⟩
    let t := includesUnended "after\n"
    ((preprocess host t {} ⟨"Root.java"⟩).run e).1 = .ok (.text "pafter\n" false none) ∧
      (∀ f ∈ followed host t {} ⟨"Root.java"⟩ e, ∀ v ∈ f.inserted host,
        Text.unbroken v.toList = true) ∧
      Text.contents (Text.lines "pafter\n") ≠ emissions host t {} ⟨"Root.java"⟩ e := by
  intro host e t
  have htext : ((preprocess host t {} ⟨"Root.java"⟩).run e).1 =
      .ok (.text "pafter\n" false none) := eq_ok_of_toOption (by decide +kernel)
  have hemissions : emissions host t {} ⟨"Root.java"⟩ e = ["p", "after"] := by decide +kernel
  refine ⟨htext, by decide +kernel, ?_⟩
  rw [hemissions]
  decide +kernel

/-! ## Texts at the numbers of their lines -/

/-- In a run that keeps its lines and stays in one file, the lines that are followed are those of
the file, and each text is at the number of its line if and only if no two ends have become one
before a text. -/
theorem numbers_kept_iff (hkeep : options.keepLines = true)
    (hcomments : options.removeComments = false) {decoded : Decoded}
    (hread : readText t options root = .ok decoded)
    (hstays : ∀ f ∈ followed host t options root e, f.staysInFile = true)
    (hinserted : ∀ f ∈ followed host t options root e, ∀ v ∈ f.inserted host,
      Text.unbroken v.toList = true)
    (h : (preprocess host t options root).run e = (.ok (.text text bom outname), e')) :
    (followed host t options root e).map (·.line) = Text.lines decoded.text ∧
      ((∀ (k : Nat) (f : Followed σ) (content : String),
          (followed host t options root e)[k]? = some f → f.step = .emit content →
          content ≠ "" → (Text.lines text)[k]?.map Line.content = some content) ↔
        Text.mergesEnds (Followed.pieces options (followed host t options root e)) = false) := by
  have hlines := map_line_followed hread h hstays
  have hpieces := Followed.pieces_eq_map_kept hkeep hstays
  have hended : ∀ l ∈ (Followed.pieces options (followed host t options root e)).dropLast,
      l.terminator ≠ "" := by
    intro l hl
    rw [hpieces, ← List.map_dropLast] at hl
    obtain ⟨f, hf, rfl⟩ := List.mem_map.mp hl
    have hline : f.line ∈ (Text.lines decoded.text).dropLast := by
      rw [← hlines, ← List.map_dropLast]
      exact List.mem_map_of_mem hf
    show f.line.terminator ≠ ""
    exact Text.terminator_ne_of_mem_dropLast hline
  refine ⟨hlines, ?_⟩
  rw [← Text.keepsNumbers_iff (isPiece_of_mem_pieces hinserted) hended, Text.KeepsNumbers,
    ← text_eq_join_pieces hcomments h, hpieces]
  constructor
  · intro hall k l hl hcontent
    rw [List.getElem?_map] at hl
    obtain ⟨f, hf, rfl⟩ := Option.map_eq_some_iff.mp hl
    rcases f with ⟨site, line, e, step⟩
    cases step with
    | emit content => exact hall k _ content hf rfl hcontent
    | _ => exact absurd rfl hcontent
  · intro hall k f content hf hstep hcontent
    have hkept : f.kept.content = content := by
      rw [Followed.kept, Followed.emitted?, hstep]
      rfl
    have hl := hall k f.kept (by rw [List.getElem?_map, hf]; rfl) (hkept ▸ hcontent)
    rwa [hkept] at hl

/-- A text, a directive and a text, with ends of two kinds. -/
def mixedEnds (first second : String) : FileTree where
  entries :=
    let text := "a" ++ first ++ "//#define X = 1" ++ second ++ "b\n"
    [(["A.java"], .file (text.toList.map fun c => .ofNat c.toNat))]

/-- The end of the directive is a line of its own after both characters of an end. -/
theorem numbers_kept_mixedEnds :
    let host : Host Unit := .declining Unit
    let options : Options := { keepLines := true }
    let e : Engine Unit := ⟨⟨[.store "local" []], false⟩, (), none, #[]⟩
    let t := mixedEnds "\r\n" "\r"
    let fs := followed host t options ⟨"A.java"⟩ e
    ((preprocess host t options ⟨"A.java"⟩).run e).1 = .ok (.text "a\r\n\rb\n" false none) ∧
      fs.map (·.line) = Text.lines "a\r\n//#define X = 1\rb\n" ∧
      ∀ (k : Nat) (f : Followed Unit) (content : String), fs[k]? = some f →
        f.step = .emit content → content ≠ "" →
        (Text.lines "a\r\n\rb\n")[k]?.map Line.content = some content := by
  intro host options e t fs
  have hread : readText t options ⟨"A.java"⟩ = .ok ⟨"a\r\n//#define X = 1\rb\n", false⟩ := by
    with_unfolding_all rfl
  have htext : ((preprocess host t options ⟨"A.java"⟩).run e).1 =
      .ok (.text "a\r\n\rb\n" false none) := eq_ok_of_toOption (by decide +kernel)
  have hstays : ∀ f ∈ fs, f.staysInFile = true := by decide +kernel
  have hinserted : ∀ f ∈ fs, ∀ v ∈ f.inserted host, Text.unbroken v.toList = true := by
    decide +kernel
  have hmerges : Text.mergesEnds (Followed.pieces options fs) = false := by decide +kernel
  obtain ⟨hlines, hnumbers⟩ := numbers_kept_iff rfl rfl hread hstays hinserted
    (Prod.ext htext rfl)
  exact ⟨htext, hlines, hnumbers.mpr hmerges⟩

/-- A carriage return before the directive and a line feed after it become one end, and the text of
the third line is on the second line of the output. -/
theorem numbers_lost_mixedEnds :
    let host : Host Unit := .declining Unit
    let options : Options := { keepLines := true }
    let e : Engine Unit := ⟨⟨[.store "local" []], false⟩, (), none, #[]⟩
    let t := mixedEnds "\r" "\n"
    let fs := followed host t options ⟨"A.java"⟩ e
    ((preprocess host t options ⟨"A.java"⟩).run e).1 = .ok (.text "a\r\nb\n" false none) ∧
      (∀ f ∈ fs, f.staysInFile = true ∧ ∀ v ∈ f.inserted host, Text.unbroken v.toList = true) ∧
      fs.map (·.line) = Text.lines "a\r//#define X = 1\nb\n" ∧
      fs[2]?.map (·.step) = some (.emit "b") ∧
      (Text.lines "a\r\nb\n").map Line.content = ["a", "b"] := by
  intro host options e t fs
  have htext : ((preprocess host t options ⟨"A.java"⟩).run e).1 =
      .ok (.text "a\r\nb\n" false none) := eq_ok_of_toOption (by decide +kernel)
  have hfollowed : ∀ f ∈ fs, f.staysInFile = true ∧
      ∀ v ∈ f.inserted host, Text.unbroken v.toList = true := by decide +kernel
  have hlines : fs.map (·.line) = Text.lines "a\r//#define X = 1\nb\n" := by decide +kernel
  have hstep : fs[2]?.map (·.step) = some (.emit "b") := by decide +kernel
  exact ⟨htext, hfollowed, hlines, hstep, by decide +kernel⟩

end Source

end Preprocessor
