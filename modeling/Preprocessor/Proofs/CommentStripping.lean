/-
Comments are the segments that are taken out.

The automaton reads a text segment by segment: in front of each segment it is in code, and reading
the segment keeps all of it or, if it is a comment, nothing.  So a stripped text is what is left of
the segments.  Where a comment is gone, what comes to stand side by side makes no new segment,
because a slash that is kept is never followed by a comment.  The text in front of a comment that is
never closed has the same segments as it has there.
-/
import Mathlib.Data.String.Basic
import Preprocessor.Proofs.CommentSegments

namespace Preprocessor.Text

open String (utf8Len)

/-! ## Reading on from a mode -/

/-- A comment that is open at the end of a text, and what is kept of the text, with `more` before
it. -/
def prepend (more : List Char) (o : Option Nat × List Char) : Option Nat × List Char :=
  (o.1, more ++ o.2)

@[simp] theorem prepend_nil (o : Option Nat × List Char) : prepend [] o = o := rfl

@[simp] theorem prepend_prepend (more more' : List Char) (o : Option Nat × List Char) :
    prepend more (prepend more' o) = prepend (more ++ more') o := by
  simp [prepend]

namespace Mode

/-- The comment that is open after a text that is read on from a mode, and what is kept of it. -/
def outcome (mode : Mode) (offset : Nat) (cs : List Char) : Option Nat × List Char :=
  ((mode.run offset [] cs).1.open?, (mode.run offset [] cs).2)

theorem run_cons (mode : Mode) (offset : Nat) (kept : List Char) (c : Char) (cs : List Char) :
    mode.run offset kept (c :: cs) =
      (mode.step offset c).1.run (offset + c.utf8Size)
        ((mode.step offset c).2.reverse ++ kept) cs := rfl

theorem run_kept (mode : Mode) (offset : Nat) (kept cs : List Char) :
    mode.run offset kept cs =
      ((mode.run offset [] cs).1, kept.reverse ++ (mode.run offset [] cs).2) := by
  induction cs generalizing mode offset kept with
  | nil => simp [run]
  | cons c cs ih =>
      rw [run_cons, run_cons, ih _ _ ((mode.step offset c).2.reverse ++ kept),
        ih _ _ ((mode.step offset c).2.reverse ++ [])]
      simp

theorem outcome_nil (mode : Mode) (offset : Nat) :
    mode.outcome offset [] = (mode.open?, mode.pending) := rfl

theorem outcome_cons (mode : Mode) (offset : Nat) (c : Char) (cs : List Char) :
    mode.outcome offset (c :: cs) =
      prepend (mode.step offset c).2
        ((mode.step offset c).1.outcome (offset + c.utf8Size) cs) := by
  rw [outcome, run_cons, run_kept]
  simp [outcome, prepend]

/-! ## Reading a segment -/

theorem outcome_enclosed {body : List Char} (h : Enclosed body) (offset : Nat) (rest : List Char) :
    string.outcome offset (body ++ rest) =
      prepend body (string.outcome (offset + utf8Len body) rest) := by
  induction h generalizing offset with
  | nil => rfl
  | @plain c cs hslash hquote _ ih =>
      have hstep : string.step offset c = (string, [c]) := by simp [step, hslash, hquote]
      rw [List.cons_append, outcome_cons, hstep, ih]
      simp [Nat.add_assoc, Nat.add_comm]
  | @escaped c cs _ ih =>
      have hstep : string.step offset '\\' = (escape, ['\\']) := rfl
      have hstep' : escape.step (offset + '\\'.utf8Size) c = (string, [c]) := rfl
      rw [List.cons_append, List.cons_append, outcome_cons, hstep, outcome_cons, hstep', ih]
      simp [Nat.add_assoc, Nat.add_comm, Nat.add_left_comm]

theorem outcome_unbroken {body : List Char} (h : unbroken body = true) (offset : Nat)
    (rest : List Char) :
    line.outcome offset (body ++ rest) = line.outcome (offset + utf8Len body) rest := by
  induction body generalizing offset with
  | nil => rfl
  | cons c body ih =>
      obtain ⟨hfeed, hreturn, hbody⟩ := unbroken_cons h
      have hstep : line.step offset c = (line, []) := by simp [step, hfeed, hreturn]
      rw [List.cons_append, outcome_cons, hstep, ih hbody]
      simp [Nat.add_assoc, Nat.add_comm]

theorem outcome_line {rest : List Char} (h : ∀ c ∈ rest.head?, isEnd c = true) (offset : Nat) :
    line.outcome offset rest = code.outcome offset rest := by
  cases rest with
  | nil => rfl
  | cons c rest =>
      have hend : c = '\n' ∨ c = '\r' := by simpa [isEnd] using h c rfl
      rcases hend with rfl | rfl
      · rfl
      · rfl

theorem outcome_slash {rest : List Char} (h : ∀ d ∈ rest.head?, d ≠ '/' ∧ d ≠ '*')
    (offset : Nat) :
    slash.outcome offset rest = prepend ['/'] (code.outcome offset rest) := by
  cases rest with
  | nil => rfl
  | cons d rest =>
      obtain ⟨hslash, hstar⟩ := h d rfl
      by_cases hquote : d = '"'
      · subst hquote
        rw [outcome_cons, outcome_cons]
        simp [step, afterCode]
      · rw [outcome_cons, outcome_cons]
        simp [step, afterCode, hslash, hstar, hquote]

/-- Inside a block comment only a star and a slash do anything, so what counts is whether a star has
just been read. -/
theorem outcome_block {body : List Char} (h : ¬blockEnd <:+: body) (start offset : Nat)
    (rest : List Char) :
    (block start).outcome offset (body ++ rest) =
      (if body.getLast? = some '*' then blockStar start else block start).outcome
        (offset + utf8Len body) rest := by
  induction body using List.reverseRecOn generalizing rest with
  | nil => rfl
  | append_singleton body c ih =>
      have hbody : ¬blockEnd <:+: body := by
        intro hpart
        exact h (hpart.trans (List.prefix_append body [c]).isInfix)
      rw [List.append_assoc, ih hbody, List.singleton_append, outcome_cons]
      by_cases hstar : body.getLast? = some '*'
      · -- a slash would close the comment here
        have hslash : c ≠ '/' := by
          rintro rfl
          obtain ⟨before, rfl⟩ := List.getLast?_eq_some_iff.mp hstar
          exact h ⟨before, [], by simp [blockEnd]⟩
        by_cases hc : c = '*'
        · simp [hstar, step, hc, Nat.add_assoc]
        · simp [hstar, step, hslash, hc, Nat.add_assoc]
      · by_cases hc : c = '*'
        · simp [hstar, step, hc, Nat.add_assoc]
        · simp [hstar, step, hc, Nat.add_assoc]

theorem outcome_literal {body rest : List Char} {closed : Bool}
    (h : (Segment.literal body closed).Fits rest) (offset : Nat) :
    code.outcome offset ((Segment.literal body closed).text ++ rest) =
      prepend (Segment.literal body closed).text
        (code.outcome (offset + utf8Len (Segment.literal body closed).text) rest) := by
  have hopen : code.step offset '"' = (string, ['"']) := rfl
  cases closed with
  | true =>
      have hclose : ∀ n, string.step n '"' = (code, ['"']) := fun _ => rfl
      have htext : (Segment.literal body true).text ++ rest = '"' :: (body ++ '"' :: rest) := by
        simp [Segment.text]
      rw [htext, outcome_cons, hopen, outcome_enclosed h, outcome_cons, hclose]
      simp [Segment.text, Nat.add_assoc, Nat.add_comm, Nat.add_left_comm]
  | false =>
      obtain ⟨hbody | ⟨inner, hinner, rfl⟩, rfl⟩ := h
      · have htext : (Segment.literal body false).text ++ [] = '"' :: (body ++ []) := by
          simp [Segment.text]
        rw [htext, outcome_cons, hopen, outcome_enclosed hbody, outcome_nil, outcome_nil]
        simp [Segment.text, prepend, pending, open?]
      · -- the last backslash has nothing to take along
        have htext : (Segment.literal (inner ++ ['\\']) false).text ++ [] =
            '"' :: (inner ++ ['\\']) := by
          simp [Segment.text]
        have hlast : ∀ n, string.step n '\\' = (escape, ['\\']) := fun _ => rfl
        rw [htext, outcome_cons, hopen, outcome_enclosed hinner, outcome_cons, hlast, outcome_nil,
          outcome_nil]
        simp [Segment.text, prepend, pending, open?]

theorem outcome_lineComment {body rest : List Char} (h : (Segment.lineComment body).Fits rest)
    (offset : Nat) :
    code.outcome offset ((Segment.lineComment body).text ++ rest) =
      code.outcome (offset + utf8Len (Segment.lineComment body).text) rest := by
  have hslash : code.step offset '/' = (slash, []) := rfl
  have hslash' : ∀ n, slash.step n '/' = (line, []) := fun _ => rfl
  show code.outcome offset ('/' :: '/' :: (body ++ rest)) = _
  rw [outcome_cons, hslash, outcome_cons, hslash', outcome_unbroken h.1, outcome_line h.2]
  simp [Segment.text, Nat.add_assoc, Nat.add_comm, Nat.add_left_comm]

theorem outcome_opening (offset : Nat) (cs : List Char) :
    code.outcome offset ('/' :: '*' :: cs) =
      (block offset).outcome (offset + utf8Len ['/', '*']) cs := by
  have hslash : code.step offset '/' = (slash, []) := rfl
  have hstar : slash.step (offset + '/'.utf8Size) '*' = (block offset, []) := rfl
  rw [outcome_cons, hslash, outcome_cons, hstar]
  rfl

theorem outcome_closedBlock {body rest : List Char}
    (h : (Segment.blockComment body true).Fits rest) (offset : Nat) :
    code.outcome offset ((Segment.blockComment body true).text ++ rest) =
      code.outcome (offset + utf8Len (Segment.blockComment body true).text) rest := by
  have htext : (Segment.blockComment body true).text ++ rest =
      '/' :: '*' :: ((body ++ ['*']) ++ '/' :: rest) := by
    simp [Segment.text, blockEnd]
  have hclose : ∀ n, (blockStar offset).step n '/' = (code, []) := fun _ => rfl
  rw [htext, outcome_opening, outcome_block h, if_pos (by simp), outcome_cons, hclose]
  simp [Segment.text, blockEnd, Nat.add_assoc, Nat.add_comm, Nat.add_left_comm]

theorem outcome_openBlock {body : List Char} (h : ¬blockEnd <:+: body) (offset : Nat) :
    code.outcome offset (Segment.blockComment body false).text = (some offset, []) := by
  have htext : (Segment.blockComment body false).text = '/' :: '*' :: (body ++ []) := by
    simp [Segment.text]
  rw [htext, outcome_opening, outcome_block h, outcome_nil]
  split
  · rfl
  · rfl

theorem outcome_other {c : Char} {rest : List Char} (h : (Segment.other c).Fits rest)
    (offset : Nat) :
    code.outcome offset (c :: rest) = prepend [c] (code.outcome (offset + c.utf8Size) rest) := by
  rw [outcome_cons]
  by_cases hslash : c = '/'
  · subst hslash
    have hstep : code.step offset '/' = (slash, []) := rfl
    rw [hstep, outcome_slash (h.2 rfl)]
    rfl
  · have hstep : code.step offset c = (code, [c]) := by simp [step, afterCode, hslash, h.1]
    rw [hstep]

/-- In front of a segment and after it the mode is code, unless the text ends inside. -/
theorem outcome_segment {seg : Segment} {rest : List Char} (h : seg.Fits rest)
    (hclosed : seg.isOpenBlock = false) (offset : Nat) :
    code.outcome offset (seg.text ++ rest) =
      prepend seg.kept (code.outcome (offset + utf8Len seg.text) rest) := by
  cases seg with
  | literal body closed => exact outcome_literal h offset
  | lineComment body => exact outcome_lineComment h offset
  | blockComment body closed =>
      cases closed with
      | true => exact outcome_closedBlock h offset
      | false => cases hclosed
  | other c =>
      rw [Segment.kept_of_not_isComment rfl]
      simpa [Segment.text] using outcome_other h offset

end Mode

/-! ## Reading all segments -/

/-- The place of the block comment that the segments leave open, `offset` bytes being before
them. -/
def openAt (offset : Nat) : List Segment → Option Nat
  | [] => none
  | seg :: segs =>
    if seg.isOpenBlock then some offset else openAt (offset + utf8Len seg.text) segs

theorem Segment.exists_of_isOpenBlock {seg : Segment} {rest : List Char}
    (h : seg.isOpenBlock = true) (hfits : seg.Fits rest) :
    ∃ body, seg = .blockComment body false ∧ ¬blockEnd <:+: body ∧ rest = [] := by
  cases seg with
  | blockComment body closed =>
      cases closed with
      | true => cases h
      | false => exact ⟨body, rfl, hfits⟩
  | _ => cases h

theorem Segmented.eq_nil {segs : List Segment} (h : Segmented [] segs) : segs = [] :=
  h.unique .nil

/-- The automaton keeps what is left of the segments, and finds the comment that they leave open. -/
theorem outcome_of_segmented {cs : List Char} {segs : List Segment} (h : Segmented cs segs)
    (offset : Nat) :
    Mode.code.outcome offset cs = (openAt offset segs, segs.flatMap Segment.kept) := by
  induction h generalizing offset with
  | nil => rfl
  | @cons seg rest segs hfits hsegs ih =>
      cases hopen : seg.isOpenBlock with
      | true =>
          obtain ⟨body, rfl, hbody, rfl⟩ := seg.exists_of_isOpenBlock hopen hfits
          obtain rfl := hsegs.eq_nil
          rw [List.append_nil, Mode.outcome_openBlock hbody]
          rfl
      | false =>
          rw [Mode.outcome_segment hfits hopen, ih]
          simp [openAt, hopen, prepend]

theorem flatMap_kept (segs : List Segment) :
    segs.flatMap Segment.kept = (segs.filter (!·.isComment)).flatMap Segment.text := by
  induction segs with
  | nil => rfl
  | cons seg segs ih =>
      cases hcomment : seg.isComment with
      | true => simp [ih, hcomment, Segment.kept_of_isComment hcomment]
      | false => simp [ih, hcomment, Segment.kept_of_not_isComment hcomment]

/-- What is left of segments, as a text. -/
def remaining (segs : List Segment) : String :=
  String.ofList ((segs.filter (!·.isComment)).flatMap Segment.text)

section

variable {s : String} {segs : List Segment}

theorem stripComments_lenient (h : Segmented s.toList segs) :
    stripComments s .lenient = .ok (remaining segs) := by
  have hkept := congrArg Prod.snd (outcome_of_segmented h 0)
  rw [remaining, ← flatMap_kept]
  exact congrArg (fun cs => Except.ok (String.ofList cs)) hkept

theorem stripComments_of_closed (h : Segmented s.toList segs) (hopen : openAt 0 segs = none)
    (strictness : Strictness) : stripComments s strictness = .ok (remaining segs) := by
  cases strictness with
  | lenient => exact stripComments_lenient h
  | strict =>
      have houtcome := outcome_of_segmented h 0
      rcases hrun : Mode.code.run 0 [] s.toList with ⟨last, kept⟩
      simp only [Mode.outcome, hrun, hopen, Prod.mk.injEq] at houtcome
      simp [stripComments, hrun, remaining, ← flatMap_kept, houtcome.1, houtcome.2]

theorem stripComments_of_open {start : Nat} (h : Segmented s.toList segs)
    (hopen : openAt 0 segs = some start) : stripComments s .strict = .error ⟨start⟩ := by
  have houtcome := outcome_of_segmented h 0
  rcases hrun : Mode.code.run 0 [] s.toList with ⟨last, kept⟩
  simp only [Mode.outcome, hrun, hopen, Prod.mk.injEq] at houtcome
  simp [stripComments, hrun, houtcome.1]

end

/-- A text without its comments is what is left of its segments, of which there is one list only. -/
theorem stripComments_eq_remaining (s : String) :
    ∃ segs, Segmented s.toList segs ∧ (∀ segs', Segmented s.toList segs' → segs' = segs) ∧
      stripComments s .lenient = .ok (remaining segs) := by
  obtain ⟨segs, hsegs⟩ := exists_segmented s.toList
  exact ⟨segs, hsegs, fun segs' hsegs' => hsegs'.unique hsegs, stripComments_lenient hsegs⟩

/-! ## Segments without the comments among them -/

theorem head?_kept_of_slash {rest : List Char} {segs : List Segment} (h : Segmented rest segs)
    (hfits : (Segment.other '/').Fits rest) :
    (segs.flatMap Segment.kept).head? = rest.head? := by
  cases h with
  | nil => rfl
  | @cons seg rest segs _ _ =>
      have hcomment : seg.isComment = false := by
        refine Bool.eq_false_iff.mpr fun hcomment => ?_
        exact (hfits.2 rfl '/' (Segment.head?_text_of_isComment hcomment rest)).1 rfl
      rw [List.flatMap_cons, Segment.kept_of_not_isComment hcomment, Segment.head?_text_append,
        Segment.head?_text_append]

/-- Where comments are taken out, the segments that are left still fit. -/
theorem fits_of_kept {seg : Segment} {rest : List Char} {segs : List Segment}
    (h : Segmented rest segs) (hfits : seg.Fits rest) (hcomment : seg.isComment = false) :
    seg.Fits (segs.flatMap Segment.kept) := by
  cases seg with
  | literal body closed =>
      cases closed with
      | true => exact hfits
      | false =>
          obtain ⟨hbody, rfl⟩ := hfits
          obtain rfl := h.eq_nil
          exact ⟨hbody, rfl⟩
  | other c =>
      by_cases hslash : c = '/'
      · subst hslash
        exact hfits.mono fun d hd => head?_kept_of_slash h hfits ▸ hd
      · exact ⟨hfits.1, fun hslash' => absurd hslash' hslash⟩
  | _ => cases hcomment

theorem Segmented.kept {cs : List Char} {segs : List Segment} (h : Segmented cs segs) :
    Segmented (segs.flatMap Segment.kept) (segs.filter (!·.isComment)) := by
  induction h with
  | nil => exact .nil
  | @cons seg rest segs hfits hsegs ih =>
      cases hcomment : seg.isComment with
      | true => simpa [hcomment, Segment.kept_of_isComment hcomment] using ih
      | false =>
          rw [List.flatMap_cons, Segment.kept_of_not_isComment hcomment,
            List.filter_cons_of_pos (by simp [hcomment])]
          exact .cons (fits_of_kept hsegs hfits hcomment) ih

theorem openAt_filter (segs : List Segment) (offset : Nat) :
    openAt offset (segs.filter (!·.isComment)) = none := by
  induction segs generalizing offset with
  | nil => rfl
  | cons seg segs ih =>
      cases hcomment : seg.isComment with
      | true => simpa [hcomment] using ih offset
      | false =>
          have hopen : seg.isOpenBlock = false := by
            cases seg <;> first | rfl | cases hcomment
          simp [hcomment, openAt, hopen, ih]

theorem remaining_filter (segs : List Segment) :
    remaining (segs.filter (!·.isComment)) = remaining segs := by
  simp [remaining]

/-- A stripped text is made of the segments that were left, none of which is a comment, and is left
as it is when it is stripped again. -/
theorem stripComments_of_stripped {s u : String} {strictness : Strictness}
    (h : stripComments s strictness = .ok u) :
    (∀ segs, Segmented s.toList segs → Segmented u.toList (segs.filter (!·.isComment))) ∧
      stripComments u .lenient = .ok u ∧ stripComments u .strict = .ok u := by
  obtain ⟨segs, hsegs⟩ := exists_segmented s.toList
  have hu : u = remaining segs := by
    cases strictness with
    | lenient => exact (Except.ok.inj ((stripComments_lenient hsegs).symm.trans h)).symm
    | strict =>
        cases hopen : openAt 0 segs with
        | none => exact (Except.ok.inj ((stripComments_of_closed hsegs hopen _).symm.trans h)).symm
        | some start => cases (stripComments_of_open hsegs hopen).symm.trans h
  have hleft : Segmented u.toList (segs.filter (!·.isComment)) := by
    rw [hu, remaining, ← flatMap_kept, String.toList_ofList]
    exact hsegs.kept
  have hagain := stripComments_of_closed hleft (openAt_filter segs 0)
  rw [remaining_filter, ← hu] at hagain
  refine ⟨fun segs' hsegs' => ?_, hagain .lenient, hagain .strict⟩
  rw [hsegs'.unique hsegs]
  exact hleft

/-- A comment in front of a slash, a literal that looks like one, and a comment that is not
closed. -/
theorem stripComments_of_strippedSlashes :
    let text := "1/**// 2 \"//\" /*/"
    let left := "1/ 2 \"//\" "
    stripComments text .lenient = .ok left ∧
      (∀ segs, Segmented text.toList segs → Segmented left.toList (segs.filter (!·.isComment))) ∧
      stripComments left .lenient = .ok left ∧ stripComments left .strict = .ok left := by
  intro text left
  have h : stripComments text .lenient = .ok left := by decide +kernel
  exact ⟨h, stripComments_of_stripped h⟩

/-! ## A comment that is not closed -/

/-- If the segments leave a comment open, it is the last of them, and the text in front of it is
made of the others. -/
theorem exists_of_openAt {cs : List Char} {segs : List Segment} {offset start : Nat}
    (h : Segmented cs segs) (hopen : openAt offset segs = some start) :
    ∃ before segs₀ body, cs = before ++ '/' :: '*' :: body ∧
      segs = segs₀ ++ [.blockComment body false] ∧ Segmented before segs₀ ∧
      openAt offset segs₀ = none ∧ start = offset + utf8Len before := by
  induction h generalizing offset with
  | nil => cases hopen
  | @cons seg rest segs hfits hsegs ih =>
      cases hlast : seg.isOpenBlock with
      | true =>
          obtain ⟨body, rfl, -, rfl⟩ := seg.exists_of_isOpenBlock hlast hfits
          obtain rfl := hsegs.eq_nil
          obtain rfl : offset = start := by simpa [openAt, hlast] using hopen
          exact ⟨[], [], body, by simp [Segment.text], rfl, .nil, rfl, rfl⟩
      | false =>
          have hrest : openAt (offset + utf8Len seg.text) segs = some start := by
            simpa [openAt, hlast] using hopen
          obtain ⟨before, segs₀, body, rfl, rfl, hbefore, hclosed, rfl⟩ := ih hrest
          -- nothing but the comment is gone from what follows the segment
          have hhead : ∀ c ∈ before.head?, c ∈ (before ++ '/' :: '*' :: body).head? := by
            intro c hc
            rw [List.head?_append, Option.mem_def.mp hc]
            rfl
          refine ⟨seg.text ++ before, seg :: segs₀, body, by simp, rfl,
            .cons (hfits.mono hhead) hbefore, ?_, ?_⟩
          · simpa [openAt, hlast] using hclosed
          · simp [Nat.add_assoc]

theorem openAt_append_ne_none (segs : List Segment) (body : List Char) (offset : Nat) :
    openAt offset (segs ++ [.blockComment body false]) ≠ none := by
  induction segs generalizing offset with
  | nil => simp [openAt, Segment.isOpenBlock]
  | cons seg segs ih =>
      cases hopen : seg.isOpenBlock with
      | true => simp [openAt, hopen]
      | false => simpa [openAt, hopen] using ih _

theorem endsInBlock_iff {cs : List Char} {segs : List Segment} (h : Segmented cs segs) :
    EndsInBlock cs ↔ ∃ start, openAt 0 segs = some start := by
  constructor
  · rintro ⟨segs', body, hsegs'⟩
    obtain rfl := h.unique hsegs'
    exact Option.ne_none_iff_exists'.mp (openAt_append_ne_none segs' body 0)
  · rintro ⟨start, hopen⟩
    obtain ⟨-, segs₀, body, -, rfl, -⟩ := exists_of_openAt h hopen
    exact ⟨segs₀, body, h⟩

/-- Being strict matters only for a text that ends inside a block comment.  The error then tells
where the comment starts, and the text up to there is stripped to what is left of the whole. -/
theorem stripComments_strict (s : String) :
    ∃ u, stripComments s .lenient = .ok u ∧
      ((∃ e, stripComments s .strict = .error e) ↔ EndsInBlock s.toList) ∧
      (∀ v, stripComments s .strict = .ok v → v = u) ∧
      ∀ e, stripComments s .strict = .error e →
        ∃ before after, s = before ++ "/*" ++ after ∧ before.utf8ByteSize = e.offset ∧
          stripComments before .strict = .ok u := by
  obtain ⟨segs, hsegs⟩ := exists_segmented s.toList
  refine ⟨remaining segs, stripComments_lenient hsegs, ?_⟩
  rw [endsInBlock_iff hsegs]
  cases hopen : openAt 0 segs with
  | none =>
      have hstrict := stripComments_of_closed hsegs hopen .strict
      rw [hstrict]
      refine ⟨⟨?_, ?_⟩, fun v hv => (Except.ok.inj hv).symm, ?_⟩
      · rintro ⟨e, he⟩
        cases he
      · rintro ⟨start, hstart⟩
        cases hstart
      · intro e he
        cases he
  | some start =>
      rw [stripComments_of_open hsegs hopen]
      refine ⟨⟨fun _ => ⟨start, rfl⟩, fun _ => ⟨⟨start⟩, rfl⟩⟩, fun v hv => (by cases hv), ?_⟩
      intro e he
      obtain rfl := Except.error.inj he
      obtain ⟨before, segs₀, body, hs, rfl, hbefore, hclosed, rfl⟩ := exists_of_openAt hsegs hopen
      refine ⟨.ofList before, .ofList body, ?_, ?_, ?_⟩
      · rw [← String.toList_inj, hs]
        simp
      · simp [String.utf8ByteSize_ofList]
      · rw [← String.toList_ofList (l := before)] at hbefore
        rw [stripComments_of_closed hbefore hclosed]
        simp [remaining, Segment.isComment]

/-- The comment that is not closed comes after one that is, and after a character of two bytes. -/
theorem stripComments_strict_secondComment :
    let text := "é /* a */\"/*\" /*/ ö"
    let left := "é \"/*\" "
    stripComments text .strict = .error ⟨15⟩ ∧ stripComments text .lenient = .ok left ∧
      ∃ before after, text = before ++ "/*" ++ after ∧ before.utf8ByteSize = 15 ∧
        stripComments before .strict = .ok left := by
  intro text left
  have hstrict : stripComments text .strict = .error ⟨15⟩ := by decide +kernel
  have hlenient : stripComments text .lenient = .ok left := by decide +kernel
  obtain ⟨u, hu, -, -, hopened⟩ := stripComments_strict text
  obtain rfl := Except.ok.inj (hlenient.symm.trans hu)
  exact ⟨hstrict, hlenient, hopened _ hstrict⟩

end Preprocessor.Text
