/-
Asking whether a name is defined.

A block can be opened by a name or by a condition that calls `defined` with the name.  The first
asks the environment at once, the second goes through the tokens, the tree and the value of an
expression.  Both do the same, whatever the name is and wherever the line stands, and call the host
alike.
-/
import Preprocessor.Proofs.CallOrder
import Preprocessor.Proofs.QuickLook

namespace Preprocessor

/-! ## Names as tokens -/

namespace Token

variable {c : Char} {name : String} {own more rest : List Char}

theorem isName_of_nameFrom (hstart : Text.isNameStart c = true) (h : nameFrom c more = c :: more) :
    Text.isName (c :: more) = true := by
  have htail : nameTail more = more := (List.cons.inj h).2
  have htaken : more <+: more.takeWhile Text.isNamePart := by
    nth_rewrite 1 [← htail]
    exact List.rdropWhile_prefix _ _
  have hmore : more.takeWhile Text.isNamePart = more :=
    (List.takeWhile_prefix _).eq_of_length_le htaken.length_le
  rw [Text.isName, hstart, Bool.true_and, List.all_eq_true]
  exact List.takeWhile_eq_self_iff.mp hmore

theorem eq_of_ofWord {word : String} (h : ofWord word = .name name) : word = name := by
  unfold ofWord at h
  repeat' split at h
  iterate 3 cases h
  exact TokenKind.name.inj h

theorem isName_of_lexeme (h : Lexeme (.name name) own) :
    own = name.toList ∧ Text.isName own = true := by
  obtain ⟨c, more, rfl, -, hread⟩ := h
  rcases readFrom_cases hread with ⟨m, hm⟩ | ⟨s, hs⟩ | hdigit | hstart
  · cases hm
  · cases hs
  · rw [readFrom_of_isDigit hdigit] at hread
    have hwritten := written_of_readNumber hread
    generalize c :: more = cs at hwritten
    rcases hwritten with hwritten | ⟨x, hx⟩
    · cases hwritten with
      | name hname _ _ => exact ⟨rfl, hname⟩
    · cases hx
  · rw [readFrom_of_isNameStart hstart] at hread
    obtain ⟨hword, hlength⟩ := Prod.mk.inj (Except.ok.inj hread)
    have hwhole := nameFrom_of_length hlength
    rw [hwhole] at hword
    refine ⟨?_, isName_of_nameFrom hstart hwhole⟩
    rw [← eq_of_ofWord hword, String.toList_ofList]

theorem isName_of_scan (h : (scan name).map (fun tokens => kinds tokens.items) = .ok [.name name]) :
    Lexeme (.name name) name.toList ∧ Text.isName name.toList = true := by
  obtain ⟨⟨items, stop⟩, hscan, hkinds⟩ := exists_of_map_eq_ok h
  obtain ⟨⟨kind, position⟩, rfl, hkind⟩ := List.map_eq_singleton_iff.mp hkinds
  cases hkind
  have htiled := tiled_of_scan hscan
  generalize hcs : name.toList = cs at htiled
  cases htiled with
  | @token _ lead own gap _ _ _ hlead hown hrest =>
      obtain ⟨rfl, hname⟩ := isName_of_lexeme hown
      -- all characters of the text are those of the name, so there are no blanks around it
      have hlength := congrArg List.length hcs
      simp only [List.length_append] at hlength
      obtain rfl : lead = [] := List.eq_nil_of_length_eq_zero (by omega)
      obtain rfl : gap = [] := List.eq_nil_of_length_eq_zero (by omega)
      rw [List.nil_append, List.append_nil]
      exact ⟨hown, hname⟩

theorem nameFrom_append (hmore : ∀ d ∈ more, Text.isNamePart d = true)
    (hrest : ∀ d ∈ rest.head?, Text.isNamePart d = false) :
    nameFrom c (more ++ rest) = nameFrom c more := by
  rw [nameFrom, takeWhile_of_head? hmore hrest, nameFrom, List.takeWhile_eq_self_iff.mpr hmore]

theorem scanFrom_name (h : Lexeme (.name name) name.toList)
    (hrest : ∀ d ∈ rest.head?, Text.isNamePart d = false) (position : Nat) :
    scanFrom position (name.toList ++ rest) =
      (scanFrom (position + name.toList.length) rest).map fun ts =>
        { ts with items := ⟨.name name, position⟩ :: ts.items } := by
  obtain ⟨-, hname⟩ := isName_of_lexeme h
  obtain ⟨c, more, hchars, hblank, hread⟩ := h
  rw [hchars, Text.isName, Bool.and_eq_true] at hname
  have hmore : ∀ d ∈ more, Text.isNamePart d = true := List.all_eq_true.mp hname.2
  have hread' : readFrom c (more ++ rest) = .ok (.name name, more.length + 1) := by
    rw [← hread, readFrom_of_isNameStart hname.1, readFrom_of_isNameStart hname.1,
      nameFrom_append hmore hrest]
  rw [hchars, List.cons_append, scanFrom_of_read hblank hread', Nat.add_sub_cancel,
    List.drop_left, Nat.max_eq_right (Nat.le_add_left 1 _), List.length_cons]

theorem scanFrom_mark {m : Mark} (hblank : Text.isBlank c = false)
    (hread : readFrom c rest = .ok (.mark m, 1)) (position : Nat) :
    scanFrom position (c :: rest) =
      (scanFrom (position + 1) rest).map fun ts =>
        { ts with items := ⟨.mark m, position⟩ :: ts.items } := by
  rw [scanFrom_of_read hblank hread]
  rfl

theorem lexeme_defined : Lexeme (.name "defined") "defined".toList :=
  lexeme_name (by decide +kernel) (by decide) (by decide)

theorem scanFrom_defined (h : Lexeme (.name name) name.toList) (position : Nat) :
    ∃ tokens, scanFrom position ("defined".toList ++ '(' :: (name.toList ++ [')'])) = .ok tokens ∧
      kinds tokens.items =
        [.name "defined", .mark .openParen, .name name, .mark .closeParen] := by
  have hparen : ∀ d ∈ ('(' :: (name.toList ++ [')'])).head?, Text.isNamePart d = false := by
    rintro d ⟨⟩
    decide +kernel
  have hclose : ∀ d ∈ [')'].head?, Text.isNamePart d = false := by
    rintro d ⟨⟩
    decide +kernel
  rw [scanFrom_name lexeme_defined hparen, scanFrom_mark (by decide) rfl, scanFrom_name h hclose,
    scanFrom_mark (by decide) rfl, scanFrom]
  exact ⟨_, rfl, rfl⟩

end Token

/-! ## The condition -/

namespace Expr

open Token

variable {name : String}

def defined (name : String) : Expr :=
  .call "defined" [.name name]

theorem derives_defined (name : String) {d : Nat} (hd : d + 1 ≤ maxNesting) :
    Derives .primary d [.name "defined", .mark .openParen, .name name, .mark .closeParen]
      (defined name) := by
  let item : Item := ⟨[.name name], .name name⟩
  have hitem : Derives .expression (d + 1) item.tokens item.tree := .ofName hd name _
  have hcall : Derives .primary d
      (.name "defined" :: .mark .openParen :: (Item.listed [item] ++ [.mark .closeParen]))
      (.call "defined" ([item].map Item.tree)) :=
    .call (by omega) (List.forall_mem_singleton.mpr hitem)
  exact hcall

theorem parse_of_kinds {s : String} {tokens : Tokens} {ks : List TokenKind} {e : Expr}
    (hscan : scan s = .ok tokens) (hkinds : kinds tokens.items = ks)
    (h : Derives .expression 0 ks e) : parse s = .ok e := by
  rw [parse_eq_ok_iff_parseOne hscan, parseOne_eq_ok_iff, hkinds]
  exact h

theorem parse_defined (h : Lexeme (.name name) name.toList) :
    parse ("defined(" ++ name ++ ")") = .ok (defined name) := by
  obtain ⟨tokens, hscan, hkinds⟩ := scanFrom_defined h 0
  have hchars : ("defined(" ++ name ++ ")").toList =
      "defined".toList ++ '(' :: (name.toList ++ [')']) := by
    simp
  rw [← hchars] at hscan
  exact parse_of_kinds hscan hkinds ((derives_defined name (by decide)).ofPrimary _)

theorem parse_notDefined (h : Lexeme (.name name) name.toList) :
    parse ("!defined(" ++ name ++ ")") = .ok (.unary .not (defined name)) := by
  obtain ⟨tokens, hscan, hkinds⟩ := scanFrom_defined h 1
  have hchars : ("!defined(" ++ name ++ ")").toList =
      '!' :: ("defined".toList ++ '(' :: (name.toList ++ [')'])) := by
    simp
  have hbang : scan ("!defined(" ++ name ++ ")") =
      .ok { tokens with items := ⟨.mark .bang, 0⟩ :: tokens.items } := by
    rw [scan, hchars, scanFrom_mark (by decide) rfl, hscan]
    rfl
  have hoperand : Derives .unary 1 _ (defined name) :=
    (derives_defined name (by decide)).ofPrimary _
  have hnot : Derives .unary 0 _ (.unary .not (defined name)) :=
    .leading (m := .bang) (by decide) (by decide) hoperand
  refine parse_of_kinds hbang ?_ (hnot.ofUnary _)
  rw [kinds_cons, hkinds]

end Expr

section

variable {σ : Type} (host : Host σ) (site : Site) {name : String}

theorem eval_defined (env : Environment) (name : String) :
    (Expr.defined name).eval host env site = pure (.bool (env.isDefined name site)) := by
  rw [Expr.defined, Expr.eval, if_pos rfl]
  rfl

theorem run_condition_of_parse {expr : String} {tree : Expr} {b : Bool} {e : Engine σ}
    (hparse : Expr.parse expr = .ok tree)
    (heval : tree.eval host e.env site = pure (.bool b)) :
    (EngineM.condition host site expr).run e = (.ok b, e) := by
  have hevaluate : evaluate host e.env site expr = pure (.bool b) := by
    rw [evaluate, hparse]
    exact heval
  have hvalue : (EngineM.value host site expr).run e = (.ok (.bool b), e) := by
    show (let (r, state) := ((evaluate host e.env site expr).withError Fault.eval).run e.host
      (r, { e with host := state })) = _
    rw [hevaluate]
    rfl
  rw [EngineM.condition, run_bind_of_ok hvalue]
  rfl

/-- The condition that calls `defined` with a name has the value that the name itself asks for. -/
theorem run_condition_defined (h : Token.Lexeme (.name name) name.toList) (e : Engine σ) :
    (EngineM.condition host site ("defined(" ++ name ++ ")")).run e =
      (.ok (e.env.isDefined name site), e) :=
  run_condition_of_parse host site (Expr.parse_defined h) (eval_defined host site e.env name)

theorem run_condition_notDefined (h : Token.Lexeme (.name name) name.toList) (e : Engine σ) :
    (EngineM.condition host site ("!defined(" ++ name ++ ")")).run e =
      (.ok (!e.env.isDefined name site), e) := by
  refine run_condition_of_parse host site (Expr.parse_notDefined h) ?_
  rw [Expr.eval, eval_defined]
  rfl

end

/-! ## The lines -/

theorem Directive.isArgument_of_ends {expr : String} (first last : Char) (middle : List Char)
    (hchars : expr.toList = first :: (middle ++ [last])) (hfirst : Text.isBlank first = false)
    (hlast : Text.isBlank last = false) : IsArgument expr := by
  constructor
  · rintro rfl
    cases hchars
  · rw [Text.trimmed, Text.trim_of_ends, String.ofList_toList]
    · rw [hchars]
      rintro c ⟨⟩
      exact hfirst
    · rw [hchars, ← List.cons_append, List.getLast?_concat]
      rintro c ⟨⟩
      exact hlast

theorem LineKind.classify_form {d : Directive} (hd : ∀ text, d ≠ .unknown text)
    (h : d.Arranged) : classify ("//#" ++ d.form) = .ok (.directive d) := by
  have hbody : directiveBody? ("//#" ++ d.form) = some d.form.toList :=
    directiveBody?_eq_some_iff.mpr ⟨[], by simp, List.forall_mem_nil _⟩
  have hread : Directive.ofBody d.form.toList = .ok d := Directive.parse_form_of_arranged hd h
  rw [classify_of_directiveBody? hbody, hread]
  rfl

section

variable {σ : Type} (host : Host σ) (site : Site)

/-- A block is opened alike by a condition and by any other test that comes to the same, with the
same effect on the way. -/
theorem processLine_of_condition {t : Test} {expr : String} {e : Engine σ}
    (ht : t.directive.Arranged) (hexpr : Directive.IsArgument expr)
    (hvalue : (EngineM.condition host site expr).run e = (t.value host site).run e) (s : Scope) :
    e.processLine host site ("//#" ++ t.directive.form) s =
      e.processLine host site ("//#" ++ (Directive.ifTrue expr).form) s := by
  have hshort : LineKind.classify ("//#" ++ t.directive.form) = .ok (.directive t.directive) :=
    LineKind.classify_form (fun _ => by cases t <;> exact Directive.noConfusion) ht
  have hlong : LineKind.classify ("//#" ++ (Directive.ifTrue expr).form) =
      .ok (.directive (.ifTrue expr)) :=
    LineKind.classify_form (fun _ => Directive.noConfusion) hexpr
  rw [processLine_of_opening host site t hshort,
    processLine_of_opening host site (.holds expr) hlong]
  cases s.conditions.openBlock site.line with
  | settled c => rfl
  | asks next =>
      have hsame : ((Test.holds expr).value host site).run e = (t.value host site).run e := hvalue
      unfold Scope.settle
      dsimp only
      rw [hsame]

variable {name : String} (hlexeme : Token.Lexeme (.name name) name.toList)
  (hname : Text.isName name.toList = true)

include hlexeme hname

theorem processLine_ifDefined (s : Scope) (e : Engine σ) :
    e.processLine host site ("//#ifdef " ++ name) s =
      e.processLine host site ("//#if defined(" ++ name ++ ")") s := by
  have hargument : Directive.IsArgument ("defined(" ++ name ++ ")") :=
    Directive.isArgument_of_ends 'd' ')' ("efined(".toList ++ name.toList) (by simp) (by decide)
      (by decide)
  have hlines := processLine_of_condition host site (t := .isDefined name) hname hargument
    (run_condition_defined host site hlexeme e) s
  have hshort : "//#" ++ (Test.isDefined name).directive.form = "//#ifdef " ++ name := by
    simp [← String.toList_inj, Test.directive, Directive.form, Directive.worded]
  have hlong : "//#" ++ (Directive.ifTrue ("defined(" ++ name ++ ")")).form =
      "//#if defined(" ++ name ++ ")" := by
    simp [← String.toList_inj, Directive.form, Directive.worded]
  rwa [hshort, hlong] at hlines

theorem processLine_ifNotDefined (s : Scope) (e : Engine σ) :
    e.processLine host site ("//#ifndef " ++ name) s =
      e.processLine host site ("//#if !defined(" ++ name ++ ")") s := by
  have hargument : Directive.IsArgument ("!defined(" ++ name ++ ")") :=
    Directive.isArgument_of_ends '!' ')' ("defined(".toList ++ name.toList) (by simp) (by decide)
      (by decide)
  have hlines := processLine_of_condition host site (t := .isNotDefined name) hname hargument
    (run_condition_notDefined host site hlexeme e) s
  have hshort : "//#" ++ (Test.isNotDefined name).directive.form = "//#ifndef " ++ name := by
    simp [← String.toList_inj, Test.directive, Directive.form, Directive.worded]
  have hlong : "//#" ++ (Directive.ifTrue ("!defined(" ++ name ++ ")")).form =
      "//#if !defined(" ++ name ++ ")" := by
    simp [← String.toList_inj, Directive.form, Directive.worded]
  rwa [hshort, hlong] at hlines

end

/-- Asking for a name is short for calling `defined` with it.  For every text whose one token is the
name that the text spells, in every region and at every place, the short line and the line with the
condition have the same outcome, leave the same scope and the same engine, with its variables, its
log and the state of the host, and make the same calls.  So do the two lines that ask for the
opposite. -/
theorem processLine_asking (name : String)
    (hname : (Token.scan name).map (fun tokens => Token.kinds tokens.items) = .ok [.name name])
    {σ : Type} (host : Host σ) (site : Site) (s : Scope) (e : Engine σ) :
    (e.processLine host site ("//#ifdef " ++ name) s =
        e.processLine host site ("//#if defined(" ++ name ++ ")") s ∧
      e.lineCalls host site ("//#ifdef " ++ name) s =
        e.lineCalls host site ("//#if defined(" ++ name ++ ")") s) ∧
    (e.processLine host site ("//#ifndef " ++ name) s =
        e.processLine host site ("//#if !defined(" ++ name ++ ")") s ∧
      e.lineCalls host site ("//#ifndef " ++ name) s =
        e.lineCalls host site ("//#if !defined(" ++ name ++ ")") s) := by
  obtain ⟨hlexeme, hname⟩ := Token.isName_of_scan hname
  -- the calls are those that the same line makes with a host that records them
  refine ⟨⟨processLine_ifDefined host site hlexeme hname s e, ?_⟩,
    processLine_ifNotDefined host site hlexeme hname s e, ?_⟩
  · rw [Engine.lineCalls, processLine_ifDefined _ site hlexeme hname, Engine.lineCalls]
  · rw [Engine.lineCalls, processLine_ifNotDefined _ site hlexeme hname, Engine.lineCalls]

/-- Also for the name `defined` itself, which is defined here. -/
theorem processLine_asking_defined :
    let s : Scope := {}
    let e : Engine Nat := { env := ⟨[.store "local" [("defined", .int 1)]], false⟩, host := 0 }
    let site : Site := ⟨⟨"main"⟩, 3⟩
    (Token.scan "defined").map (fun tokens => Token.kinds tokens.items) = .ok [.name "defined"] ∧
      (e.processLine alternatingHost site "//#ifdef defined" s).2.1.conditions.isActive = true ∧
      e.processLine alternatingHost site "//#ifdef defined" s =
        e.processLine alternatingHost site "//#if defined(defined)" s ∧
      e.processLine alternatingHost site "//#ifndef defined" s =
        e.processLine alternatingHost site "//#if !defined(defined)" s := by
  intro s e site
  have hname : (Token.scan "defined").map (fun tokens => Token.kinds tokens.items) =
      .ok [.name "defined"] :=
    eq_ok_of_toOption (by decide +kernel)
  have hactive :
      (e.processLine alternatingHost site "//#ifdef defined" s).2.1.conditions.isActive = true := by
    decide +kernel
  obtain ⟨⟨hasks, -⟩, hasksNot, -⟩ := processLine_asking "defined" hname alternatingHost site s e
  exact ⟨hname, hactive, hasks, hasksNot⟩

end Preprocessor
