/-
The lexical structure of a text with comments.

From left to right a text is made of string literals, line comments, block comments and single
other characters.  What each of these is can be said by looking at its own characters and at the
one that follows, with no automaton: a literal goes to the next quote that no backslash takes
along, a line comment to the end of its line, a block comment to the first star and slash after its
opening, and what is never closed goes to the end of the text.  Every text can be cut in this way,
and in no more than one.
-/
import Mathlib.Data.List.Induction
import Mathlib.Data.List.TakeWhile
import Preprocessor.Proofs.LineJoining
import Preprocessor.Text.Comments

namespace Preprocessor.Text

/-! ## Segments -/

/-- A piece of a text, less the characters that open and close it; `closed` says whether those that
close it are there. -/
inductive Segment where
  | literal (body : List Char) (closed : Bool)
  | lineComment (body : List Char)
  | blockComment (body : List Char) (closed : Bool)
  | other (c : Char)
deriving DecidableEq

/-- What closes a block comment. -/
def blockEnd : List Char := ['*', '/']

/-- What may stand between the quotes of a literal: a backslash takes the next character along, and
no other character is a quote. -/
inductive Enclosed : List Char → Prop
  | nil : Enclosed []
  | plain {c : Char} {cs : List Char} : c ≠ '\\' → c ≠ '"' → Enclosed cs → Enclosed (c :: cs)
  | escaped (c : Char) {cs : List Char} : Enclosed cs → Enclosed ('\\' :: c :: cs)

namespace Segment

def text : Segment → List Char
  | literal body closed => '"' :: body ++ if closed then ['"'] else []
  | lineComment body => '/' :: '/' :: body
  | blockComment body closed => '/' :: '*' :: body ++ if closed then blockEnd else []
  | other c => [c]

def isComment : Segment → Bool
  | lineComment _ => true
  | blockComment _ _ => true
  | _ => false

def isOpenBlock : Segment → Bool
  | blockComment _ false => true
  | _ => false

def kept (seg : Segment) : List Char :=
  if seg.isComment then [] else seg.text

/-- What a segment has to be, if `rest` is the text after it. -/
def Fits (rest : List Char) : Segment → Prop
  | literal body true => Enclosed body
  | literal body false =>
    (Enclosed body ∨ ∃ inner, Enclosed inner ∧ body = inner ++ ['\\']) ∧ rest = []
  | lineComment body => unbroken body = true ∧ ∀ c ∈ rest.head?, isEnd c = true
  -- the star that closes the comment is the first one with a slash after it
  | blockComment body true => ¬blockEnd <:+: body ++ ['*']
  | blockComment body false => ¬blockEnd <:+: body ∧ rest = []
  | other c => c ≠ '"' ∧ (c = '/' → ∀ d ∈ rest.head?, d ≠ '/' ∧ d ≠ '*')

end Segment

/-- The text is made of these segments, in this order. -/
inductive Segmented : List Char → List Segment → Prop
  | nil : Segmented [] []
  | cons {seg : Segment} {rest : List Char} {segs : List Segment} :
      seg.Fits rest → Segmented rest segs → Segmented (seg.text ++ rest) (seg :: segs)

/-- The text ends inside a block comment. -/
def EndsInBlock (cs : List Char) : Prop :=
  ∃ segs body, Segmented cs (segs ++ [.blockComment body false])

namespace Segment

theorem text_ne_nil (seg : Segment) : seg.text ≠ [] := by
  cases seg <;> simp [text]

theorem kept_of_isComment {seg : Segment} (h : seg.isComment = true) : seg.kept = [] :=
  if_pos h

theorem kept_of_not_isComment {seg : Segment} (h : seg.isComment = false) :
    seg.kept = seg.text :=
  if_neg (by simp [h])

theorem head?_text_of_isComment {seg : Segment} (h : seg.isComment = true) (rest : List Char) :
    (seg.text ++ rest).head? = some '/' := by
  cases seg with
  | lineComment body => rfl
  | blockComment body closed => rfl
  | _ => cases h

theorem head?_text_append (seg : Segment) (rest : List Char) :
    (seg.text ++ rest).head? = seg.text.head? := by
  cases seg <;> rfl

theorem Fits.mono {seg : Segment} {rest rest' : List Char} (h : seg.Fits rest)
    (hhead : ∀ c ∈ rest'.head?, c ∈ rest.head?) : seg.Fits rest' := by
  have hnil : rest = [] → rest' = [] := by
    rintro rfl
    refine List.head?_eq_none_iff.mp (Option.eq_none_iff_forall_not_mem.mpr fun c hc => ?_)
    cases hhead c hc
  cases seg with
  | literal body closed =>
      cases closed with
      | true => exact h
      | false => exact ⟨h.1, hnil h.2⟩
  | lineComment body => exact ⟨h.1, fun c hc => h.2 c (hhead c hc)⟩
  | blockComment body closed =>
      cases closed with
      | true => exact h
      | false => exact ⟨h.1, hnil h.2⟩
  | other c => exact ⟨h.1, fun hslash d hd => h.2 hslash d (hhead d hd)⟩

end Segment

/-! ## Every text has segments -/

/-- After a quote, a literal is closed by another one or goes to the end of the text, where its last
backslash may have nothing to take along. -/
theorem exists_enclosed (cs : List Char) : ∃ body, Enclosed body ∧
    ((∃ rest, cs = body ++ '"' :: rest) ∨ cs = body ∨ cs = body ++ ['\\']) := by
  induction cs using List.twoStepInduction with
  | nil => exact ⟨[], .nil, .inr (.inl rfl)⟩
  | singleton c =>
      by_cases hslash : c = '\\'
      · subst hslash
        exact ⟨[], .nil, .inr (.inr rfl)⟩
      · by_cases hquote : c = '"'
        · subst hquote
          exact ⟨[], .nil, .inl ⟨[], rfl⟩⟩
        · exact ⟨[c], .plain hslash hquote .nil, .inr (.inl rfl)⟩
  | cons_cons c d cs ih ih' =>
      by_cases hslash : c = '\\'
      · subst hslash
        obtain ⟨body, hbody, hcs⟩ := ih
        refine ⟨'\\' :: d :: body, .escaped d hbody, ?_⟩
        simpa using hcs
      · by_cases hquote : c = '"'
        · subst hquote
          exact ⟨[], .nil, .inl ⟨d :: cs, rfl⟩⟩
        · obtain ⟨body, hbody, hcs⟩ := ih' d
          refine ⟨c :: body, .plain hslash hquote hbody, ?_⟩
          simpa using hcs

theorem exists_literal (cs : List Char) :
    ∃ seg rest, '"' :: cs = Segment.text seg ++ rest ∧ seg.Fits rest := by
  obtain ⟨body, hbody, ⟨rest, hcs⟩ | hcs | hcs⟩ := exists_enclosed cs
  · exact ⟨.literal body true, rest, by simp [Segment.text, hcs], hbody⟩
  · exact ⟨.literal body false, [], by simp [Segment.text, hcs], .inl hbody, rfl⟩
  · exact ⟨.literal cs false, [], by simp [Segment.text], .inr ⟨body, hbody, hcs⟩, rfl⟩

theorem exists_lineComment (cs : List Char) :
    ∃ seg rest, '/' :: '/' :: cs = Segment.text seg ++ rest ∧ seg.Fits rest := by
  refine ⟨.lineComment (cs.takeWhile (!isEnd ·)), cs.dropWhile (!isEnd ·), ?_, ?_, ?_⟩
  · simp [Segment.text, List.takeWhile_append_dropWhile]
  · refine List.all_eq_true.mpr fun c hc => ?_
    have hend := List.mem_takeWhile_imp hc
    simpa [isEnd] using hend
  · intro c hc
    have hend := List.head?_dropWhile_not (!isEnd ·) cs
    rw [Option.mem_def.mp hc] at hend
    simpa using hend

theorem exists_blockEnd (cs : List Char) :
    ¬blockEnd <:+: cs ∨
      ∃ body rest, cs = body ++ blockEnd ++ rest ∧ ¬blockEnd <:+: body ++ ['*'] := by
  -- the induction is from the back, so that an earlier end is found first
  induction cs using List.reverseRecOn with
  | nil => exact .inl (by decide)
  | append_singleton cs c ih =>
      rcases ih with hnone | ⟨body, rest, rfl, hfirst⟩
      · by_cases hend : blockEnd <:+ cs ++ [c]
        · obtain ⟨body, hbody⟩ := hend
          have hsplit : body ++ ['*'] = cs ∧ '/' = c := by
            have h : (body ++ ['*']) ++ ['/'] = cs ++ [c] := by simpa [blockEnd] using hbody
            simpa using List.append_inj' h rfl
          refine .inr ⟨body, [], by rw [List.append_nil, hbody], ?_⟩
          rwa [hsplit.1]
        · refine .inl fun hpart => ?_
          rcases List.infix_concat_iff.mp hpart with hsuffix | hinner
          · exact hend hsuffix
          · exact hnone hinner
      · exact .inr ⟨body, rest ++ [c], by simp, hfirst⟩

theorem exists_blockComment (cs : List Char) :
    ∃ seg rest, '/' :: '*' :: cs = Segment.text seg ++ rest ∧ seg.Fits rest := by
  rcases exists_blockEnd cs with hnone | ⟨body, rest, hcs, hfirst⟩
  · exact ⟨.blockComment cs false, [], by simp [Segment.text], hnone, rfl⟩
  · exact ⟨.blockComment body true, rest, by simp [Segment.text, hcs], hfirst⟩

/-- A text that is not empty begins with a segment. -/
theorem exists_fits (c : Char) (cs : List Char) :
    ∃ seg rest, c :: cs = Segment.text seg ++ rest ∧ seg.Fits rest := by
  by_cases hquote : c = '"'
  · subst hquote
    exact exists_literal cs
  by_cases hopens : c = '/' ∧ ∃ d ∈ cs.head?, d = '/' ∨ d = '*'
  · obtain ⟨rfl, d, hd, hd'⟩ := hopens
    obtain ⟨ds, rfl⟩ := List.head?_eq_some_iff.mp hd
    rcases hd' with rfl | rfl
    · exact exists_lineComment ds
    · exact exists_blockComment ds
  · refine ⟨.other c, cs, rfl, hquote, fun hslash d hd => ?_⟩
    exact not_or.mp fun hd' => hopens ⟨hslash, d, hd, hd'⟩

theorem exists_segmented (cs : List Char) : ∃ segs, Segmented cs segs := by
  induction hlength : cs.length using Nat.strong_induction_on generalizing cs with
  | _ n ih =>
      cases cs with
      | nil => exact ⟨[], .nil⟩
      | cons c cs =>
          obtain ⟨seg, rest, hcs, hfits⟩ := exists_fits c cs
          have hshorter : rest.length < n := by
            have hpos := List.length_pos_iff.mpr seg.text_ne_nil
            have htotal := congrArg List.length hcs
            rw [hlength, List.length_append] at htotal
            omega
          obtain ⟨segs, hsegs⟩ := ih rest.length hshorter rest rfl
          exact ⟨seg :: segs, hcs ▸ .cons hfits hsegs⟩

/-! ## No text has others -/

theorem Enclosed.append_inj {a b x y : List Char} (ha : Enclosed a) (hb : Enclosed b)
    (hy : y = [] ∨ y = ['\\'] ∨ ∃ rest, y = '"' :: rest) (h : a ++ '"' :: x = b ++ y) :
    a = b ∧ '"' :: x = y := by
  induction ha generalizing b with
  | nil =>
      cases hb with
      | nil => exact ⟨rfl, h⟩
      | plain _ hquote _ =>
          have hhead := (List.cons.inj h).1
          exact absurd hhead.symm hquote
      | escaped c _ =>
          have hhead := (List.cons.inj h).1
          exact absurd hhead (by decide)
  | @plain c cs hslash hquote _ ih =>
      cases hb with
      | nil =>
          rcases hy with rfl | rfl | ⟨rest, rfl⟩
          · cases h
          · exact absurd (List.cons.inj h).1 hslash
          · exact absurd (List.cons.inj h).1 hquote
      | plain _ _ hb =>
          obtain ⟨rfl, htail⟩ := List.cons.inj h
          obtain ⟨rfl, hx⟩ := ih hb htail
          exact ⟨rfl, hx⟩
      | escaped c _ => exact absurd (List.cons.inj h).1 hslash
  | @escaped c cs _ ih =>
      cases hb with
      | nil =>
          rcases hy with rfl | rfl | ⟨rest, rfl⟩
          · cases h
          · cases (List.cons.inj h).2
          · exact absurd (List.cons.inj h).1 (by decide)
      | plain hslash _ _ => exact absurd (List.cons.inj h).1.symm hslash
      | escaped c' hb =>
          obtain ⟨rfl, htail⟩ := List.cons.inj (List.cons.inj h).2
          obtain ⟨rfl, hx⟩ := ih hb htail
          exact ⟨rfl, hx⟩

theorem not_enclosed_append {a b x : List Char} (ha : Enclosed a)
    (hb : Enclosed b ∨ ∃ inner, Enclosed inner ∧ b = inner ++ ['\\']) : a ++ '"' :: x ≠ b := by
  intro h
  rcases hb with hb | ⟨inner, hinner, rfl⟩
  · rw [← List.append_nil b] at h
    cases (ha.append_inj hb (.inl rfl) h).2
  · have hx := (ha.append_inj hinner (.inr (.inl rfl)) h).2
    exact absurd (List.cons.inj hx).1 (by decide)

theorem takeWhile_of_unbroken {body rest : List Char} (hbody : unbroken body = true)
    (hrest : ∀ c ∈ rest.head?, isEnd c = true) :
    (body ++ rest).takeWhile (!isEnd ·) = body := by
  have hinside : ∀ c ∈ body, (!isEnd c) = true := by
    intro c hc
    have hc' := List.all_eq_true.mp hbody c hc
    simpa [isEnd] using hc'
  rw [List.takeWhile_append_of_pos hinside]
  cases rest with
  | nil => simp
  | cons d rest => simp [hrest d rfl]

theorem eq_nil_of_blockEnd {body more x y : List Char}
    (hfirst : ¬blockEnd <:+: (body ++ more) ++ ['*'])
    (h : blockEnd ++ x = more ++ (blockEnd ++ y)) : more = [] := by
  rcases more with _ | ⟨a, _ | ⟨b, more⟩⟩
  · rfl
  · cases h
  · cases h
    exact absurd ⟨body, more ++ ['*'], by simp [blockEnd]⟩ hfirst

theorem append_inj_of_blockEnd {body body' x y : List Char}
    (hbody : ¬blockEnd <:+: body ++ ['*']) (hbody' : ¬blockEnd <:+: body' ++ ['*'])
    (h : body ++ (blockEnd ++ x) = body' ++ (blockEnd ++ y)) : body = body' ∧ x = y := by
  have hbodies : body = body' := by
    rcases List.append_eq_append_iff.mp h with ⟨more, rfl, hmore⟩ | ⟨more, rfl, hmore⟩
    · rw [eq_nil_of_blockEnd hbody' hmore, List.append_nil]
    · rw [eq_nil_of_blockEnd hbody hmore, List.append_nil]
  subst hbodies
  exact ⟨rfl, List.append_cancel_left (List.append_cancel_left h)⟩

theorem literal_unique {body body' rest rest' : List Char} {closed closed' : Bool}
    (hfits : (Segment.literal body closed).Fits rest)
    (hfits' : (Segment.literal body' closed').Fits rest')
    (h : (Segment.literal body closed).text ++ rest =
      (Segment.literal body' closed').text ++ rest') :
    Segment.literal body closed = .literal body' closed' := by
  cases closed with
  | true =>
      cases closed' with
      | true =>
          have htail : body ++ '"' :: rest = body' ++ '"' :: rest' := by
            simpa [Segment.text] using h
          rw [(Enclosed.append_inj hfits hfits' (.inr (.inr ⟨rest', rfl⟩)) htail).1]
      | false =>
          obtain ⟨hbody', rfl⟩ := hfits'
          exact absurd (by simpa [Segment.text] using h) (not_enclosed_append hfits hbody')
  | false =>
      obtain ⟨hbody, rfl⟩ := hfits
      cases closed' with
      | true =>
          exact absurd (by simpa [Segment.text] using h.symm) (not_enclosed_append hfits' hbody)
      | false =>
          obtain ⟨-, rfl⟩ := hfits'
          have hbodies : body = body' := by simpa [Segment.text] using h
          rw [hbodies]

theorem lineComment_unique {body body' rest rest' : List Char}
    (hfits : (Segment.lineComment body).Fits rest) (hfits' : (Segment.lineComment body').Fits rest')
    (h : (Segment.lineComment body).text ++ rest = (Segment.lineComment body').text ++ rest') :
    Segment.lineComment body = .lineComment body' := by
  have htail : body ++ rest = body' ++ rest' := by simpa [Segment.text] using h
  have hbodies : body = body' := by
    rw [← takeWhile_of_unbroken hfits.1 hfits.2, htail, takeWhile_of_unbroken hfits'.1 hfits'.2]
  rw [hbodies]

theorem blockComment_unique {body body' rest rest' : List Char} {closed closed' : Bool}
    (hfits : (Segment.blockComment body closed).Fits rest)
    (hfits' : (Segment.blockComment body' closed').Fits rest')
    (h : (Segment.blockComment body closed).text ++ rest =
      (Segment.blockComment body' closed').text ++ rest') :
    Segment.blockComment body closed = .blockComment body' closed' := by
  cases closed with
  | true =>
      cases closed' with
      | true =>
          have htail : body ++ (blockEnd ++ rest) = body' ++ (blockEnd ++ rest') := by
            simpa [Segment.text] using h
          rw [(append_inj_of_blockEnd hfits hfits' htail).1]
      | false =>
          obtain ⟨hnone, rfl⟩ := hfits'
          exact absurd ⟨body, rest, by simpa [Segment.text] using h⟩ hnone
  | false =>
      obtain ⟨hnone, rfl⟩ := hfits
      cases closed' with
      | true => exact absurd ⟨body', rest', by simpa [Segment.text] using h.symm⟩ hnone
      | false =>
          obtain ⟨-, rfl⟩ := hfits'
          have hbodies : body = body' := by simpa [Segment.text] using h
          rw [hbodies]

inductive SegmentKind where
  | literal
  | lineComment
  | blockComment
  | other

def Segment.kind : Segment → SegmentKind
  | literal _ _ => .literal
  | lineComment _ => .lineComment
  | blockComment _ _ => .blockComment
  | other _ => .other

/-- The kind of the segment that a text begins with; two characters tell it. -/
def kindAt : List Char → SegmentKind
  | '"' :: _ => .literal
  | '/' :: '/' :: _ => .lineComment
  | '/' :: '*' :: _ => .blockComment
  | _ => .other

theorem kindAt_of_fits {seg : Segment} {rest : List Char} (h : seg.Fits rest) :
    kindAt (seg.text ++ rest) = seg.kind := by
  cases seg with
  | literal body closed => rfl
  | lineComment body => rfl
  | blockComment body closed => rfl
  | other c =>
      obtain ⟨hquote, hslash⟩ := h
      show kindAt (c :: rest) = .other
      unfold kindAt
      split
      · exact absurd (List.cons.inj ‹_›).1 hquote
      · obtain ⟨rfl, rfl⟩ := List.cons.inj ‹c :: rest = _›
        exact absurd rfl (hslash rfl '/' rfl).1
      · obtain ⟨rfl, rfl⟩ := List.cons.inj ‹c :: rest = _›
        exact absurd rfl (hslash rfl '*' rfl).2
      · rfl

/-- A text begins with one segment only. -/
theorem fits_unique {seg seg' : Segment} {rest rest' : List Char} (hfits : seg.Fits rest)
    (hfits' : seg'.Fits rest') (h : seg.text ++ rest = seg'.text ++ rest') : seg = seg' := by
  have hkind : seg.kind = seg'.kind := by
    rw [← kindAt_of_fits hfits, h, kindAt_of_fits hfits']
  cases seg with
  | literal body closed =>
      cases seg' with
      | literal body' closed' => exact literal_unique hfits hfits' h
      | _ => cases hkind
  | lineComment body =>
      cases seg' with
      | lineComment body' => exact lineComment_unique hfits hfits' h
      | _ => cases hkind
  | blockComment body closed =>
      cases seg' with
      | blockComment body' closed' => exact blockComment_unique hfits hfits' h
      | _ => cases hkind
  | other c =>
      cases seg' with
      | other c' => rw [(List.cons.inj h).1]
      | _ => cases hkind

theorem Segmented.unique {cs : List Char} {segs segs' : List Segment} (h : Segmented cs segs)
    (h' : Segmented cs segs') : segs = segs' := by
  induction h generalizing segs' with
  | nil =>
      generalize hcs : ([] : List Char) = cs at h'
      cases h' with
      | nil => rfl
      | @cons seg rest _ _ _ => exact absurd (List.append_eq_nil_iff.mp hcs.symm).1 seg.text_ne_nil
  | @cons seg rest segs hfits _ ih =>
      generalize hcs : seg.text ++ rest = cs at h'
      cases h' with
      | nil => exact absurd (List.append_eq_nil_iff.mp hcs).1 seg.text_ne_nil
      | cons hfits' hsegs' =>
          obtain rfl := fits_unique hfits hfits' hcs
          obtain rfl := List.append_cancel_left hcs
          rw [ih hsegs']

end Preprocessor.Text
