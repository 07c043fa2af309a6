/-
Names that are defined can be read.

A directive and an expression cut a name out of a text in different ways: the one takes all
characters that can belong to a name, the other leaves dots at its end to what follows and has
words of its own.  A name that ends in no dot is the same for both, and an expression that
consists of it has the value it was given last, unless it is one of the words.
-/
import Mathlib.Data.List.DropRight
import Preprocessor.Directive.Basic
import Preprocessor.Expr.Eval
import Preprocessor.Proofs.ExprDepth

namespace Preprocessor

variable {ε σ α β : Type}

/-! ## Names in directives -/

/-- If the result is a value, then one of which `p` holds. -/
def ValuesIn (p : α → Prop) (r : Except ε α) : Prop :=
  ∀ a, r = .ok a → p a

namespace ValuesIn

variable {p : α → Prop}

theorem ok {a : α} (h : p a) : ValuesIn p (.ok a : Except ε α) := by
  intro b hb
  cases hb
  exact h

theorem error (err : ε) : ValuesIn p (.error err : Except ε α) := by
  intro a ha
  cases ha

theorem map {r : Except ε β} {q : β → Prop} {f : β → α} (h : ValuesIn q r)
    (hf : ∀ b, q b → p (f b)) : ValuesIn p (r.map f) := by
  intro a ha
  obtain ⟨b, hb, rfl⟩ := exists_of_map_eq_ok ha
  exact hf b (h b hb)

theorem ite {c : Prop} [Decidable c] {r r' : Except ε α} (h : ValuesIn p r)
    (h' : ValuesIn p r') : ValuesIn p (if c then r else r') := by
  split
  · exact h
  · exact h'

theorem trivial (r : Except ε α) : ValuesIn (fun _ => True) r :=
  fun _ _ => True.intro

end ValuesIn

namespace Directive

/-- Where a directive has the name of a variable, it is a name. -/
def WellNamed : Directive → Prop
  | ifDefined name | ifNotDefined name | define name _ | undefine name | defineGlobal name _ =>
    Text.isName name.toList = true
  | _ => True

variable (keyword : String) (args : List Char)

theorem isName_splitName (cs : List Char) :
    (splitName cs).1 = [] ∨ Text.isName (splitName cs).1 = true := by
  cases cs with
  | nil => exact .inl rfl
  | cons c rest =>
      rw [splitName]
      split
      · rename_i hstart
        refine .inr ?_
        rw [Text.isName, hstart, Bool.true_and, List.all_eq_true]
        exact fun d hd => List.mem_takeWhile_imp hd
      · exact .inl rfl

theorem isName_singleName :
    ValuesIn (fun name => Text.isName name.toList = true) (singleName keyword args) := by
  intro name h
  unfold singleName at h
  split at h
  · rename_i hname
    cases h
    rwa [String.toList_ofList]
  · cases h

theorem isName_assignment :
    ValuesIn (fun d => Text.isName d.1.toList = true) (assignment keyword args) := by
  have hname := isName_splitName args
  unfold assignment
  dsimp only
  split
  · exact .error _
  · rename_i hne
    have hsplit : Text.isName (String.ofList (splitName args).1).toList = true := by
      rw [String.toList_ofList]
      exact hname.resolve_left (by simpa using hne)
    split
    · exact .ok hsplit
    · exact .error _
    · exact .ite (.error _) (.ok hsplit)
    · exact .error _

theorem wellNamed_ofKeyword (whole : List Char) :
    ValuesIn WellNamed (ofKeyword keyword args whole) := by
  have hexpression {f : String → Directive} (hf : ∀ expr, (f expr).WellNamed) :
      ValuesIn WellNamed ((expression keyword args).map f) :=
    (ValuesIn.trivial _).map fun expr _ => hf expr
  have hnone {d : Directive} (hd : d.WellNamed) :
      ValuesIn WellNamed (noArguments keyword args d) := .ite (.ok hd) (.error _)
  have hname := isName_singleName keyword args
  have hassignment := isName_assignment keyword args
  -- the keywords in their order, and any other
  exact .ite (hexpression fun _ => trivial) <| .ite (hname.map fun _ h => h) <|
    .ite (hname.map fun _ h => h) <| .ite (hexpression fun _ => trivial) <|
    .ite (hnone trivial) <| .ite (hnone trivial) <| .ite (hexpression fun _ => trivial) <|
    .ite (hassignment.map fun _ h => h) <| .ite (hname.map fun _ h => h) <|
    .ite (hassignment.map fun _ h => h) <| .ite (hexpression fun _ => trivial) <|
    .ite (hexpression fun _ => trivial) <| .ite (hexpression fun _ => trivial) <|
    .ite (hexpression fun _ => trivial) <| .ite (hexpression fun _ => trivial) <|
    .ite (hexpression fun _ => trivial) <| .ok trivial

theorem wellNamed_parse (body : String) : ValuesIn WellNamed (parse body) := by
  unfold parse ofBody
  split
  · exact .ok trivial
  · exact .ite (.ok trivial) <| .ite (.ok trivial) <|
      .ite (wellNamed_ofKeyword _ _ _) (.ok trivial)

end Directive

/-! ## Names in expressions -/

namespace Text

theorem Ranges.exists_of_contains {ranges : Ranges} {n : Nat} (h : ranges.contains n = true) :
    ∃ range ∈ ranges, range.1 ≤ n ∧ n ≤ range.2 := by
  induction ranges with
  | nil => cases h
  | cons range rest ih =>
      rcases range with ⟨lo, hi⟩
      rw [contains] at h
      split at h
      · cases h
      · rename_i hlo
        rcases Bool.or_eq_true_iff.mp h with hhi | hrest
        · exact ⟨(lo, hi), List.mem_cons_self, by omega, of_decide_eq_true hhi⟩
        · obtain ⟨range, hmem, hrange⟩ := ih hrest
          exact ⟨range, List.mem_cons_of_mem _ hmem, hrange⟩

variable {c : Char}

theorem isLetter_of_isBlank (h : isBlank c = true) : isLetter c = false := by
  have hall : ∀ range ∈ blankRanges, ∀ n ∈ List.range' range.1 (range.2 + 1 - range.1),
      letterRanges.contains n = false := by
    decide +kernel
  obtain ⟨range, hmem, hlo, hhi⟩ := Ranges.exists_of_contains h
  refine hall range hmem c.toNat ?_
  rw [List.mem_range'_1]
  omega

theorem isBlank_of_isNameStart (h : isNameStart c = true) : isBlank c = false := by
  cases hblank : isBlank c with
  | false => rfl
  | true =>
      have hunderscore : c = '_' := by
        simpa [isNameStart, isLetter_of_isBlank hblank] using h
      rw [hunderscore] at hblank
      exact absurd hblank (by decide)

end Text

namespace Decimal

variable {c : Char}

theorem toNat_of_isDigit (h : isDigit c = true) : c.toNat ≤ 57 := by
  obtain ⟨d, hd⟩ := Option.isSome_iff_exists.mp h
  simp only [digit?, Option.ite_none_right_eq_some, Bool.and_eq_true, decide_eq_true_eq] at hd
  -- the values from ten on are those of letters
  grind

theorem isDigit_of_isNameStart (h : Text.isNameStart c = true) : isDigit c = false := by
  cases hdigit : isDigit c with
  | false => rfl
  | true =>
      have hsmall : c.toNat < 65 := by
        have := toNat_of_isDigit hdigit
        omega
      have hletter : Text.isLetter c = false := by
        rw [Text.isLetter, Text.letterRanges, Text.Ranges.contains, if_pos hsmall]
      have hunderscore : c = '_' := by simpa [Text.isNameStart, hletter] using h
      rw [hunderscore] at hsmall
      exact absurd hsmall (by decide)

end Decimal

namespace Token

variable {c : Char} {rest : List Char}

/-- The characters that begin a mark or a string. -/
def openers : List Char :=
  ['(', ')', '{', '}', ',', '+', '-', '*', '/', '%', '!', '=', '<', '>', '&', '|', '"']

theorem readFrom_of_class {p : Char → Bool} (hp : openers.any p = false) (h : p c = true) :
    readFrom c rest =
      if Decimal.isDigit c then readNumber (c :: rest)
      else if Text.isNameStart c then
        .ok (ofWord (String.ofList (nameFrom c rest)), (nameFrom c rest).length)
      else .error (0, .unexpectedChar c) := by
  have hne (d : Char) (hd : d ∈ openers) : c ≠ d := by
    rintro rfl
    exact List.any_eq_false.mp hp c hd h
  have hsingle : single? c = none := by
    unfold single?
    split
    case h_11 => rfl
    all_goals exact absurd rfl (hne _ (by decide))
  rw [readFrom, hsingle]
  simp [hne '!' (by decide), hne '=' (by decide), hne '<' (by decide), hne '>' (by decide),
    hne '&' (by decide), hne '|' (by decide), hne '"' (by decide)]

theorem readFrom_of_isNameStart (h : Text.isNameStart c = true) :
    readFrom c rest =
      .ok (ofWord (String.ofList (nameFrom c rest)), (nameFrom c rest).length) := by
  rw [readFrom_of_class (by decide) h, if_pos h, if_neg]
  rw [Decimal.isDigit_of_isNameStart h]
  exact Bool.false_ne_true

theorem nameFrom_eq (hstart : Text.isNameStart c = true)
    (hrest : rest.all Text.isNamePart = true) :
    nameFrom c rest = (c :: rest).rdropWhile (· == '.') := by
  have hall : rest.takeWhile Text.isNamePart = rest :=
    List.takeWhile_eq_self_iff.mpr (List.all_eq_true.mp hrest)
  have hc : (c == '.') = false := by
    rw [beq_eq_false_iff_ne]
    rintro rfl
    exact absurd hstart (by decide)
  rw [nameFrom, hall, List.rdropWhile, List.reverse_cons, List.dropWhile_append]
  split
  · rename_i hnone
    rw [List.isEmpty_iff.mp hnone]
    simp [hc]
  · rw [List.reverse_append]
    rfl

theorem scan_of_isName {name : String} {word dots : List Char}
    (hname : Text.isName name.toList = true) (hword : name.toList.rdropWhile (· == '.') = word)
    (hdots : name.toList.rtakeWhile (· == '.') = dots) :
    scan name = (scanFrom word.length dots).map fun ts =>
      { ts with items := ⟨ofWord (String.ofList word), 0⟩ :: ts.items } := by
  have hsplit := List.rdropWhile_append_rtakeWhile (l := name.toList) (p := (· == '.'))
  rw [hword, hdots] at hsplit
  unfold scan
  cases hchars : name.toList with
  | nil => simp [hchars, Text.isName] at hname
  | cons c rest =>
      rw [hchars, Text.isName, Bool.and_eq_true] at hname
      have htaken : nameFrom c rest = word := by
        rw [nameFrom_eq hname.1 hname.2, ← hchars, hword]
      obtain ⟨more, rfl⟩ : ∃ more, word = c :: more := ⟨_, htaken.symm⟩
      have hrest : rest = more ++ dots := by
        rw [hchars] at hsplit
        exact (List.cons.inj hsplit).2.symm
      have hread : readFrom c rest = .ok (ofWord (String.ofList (c :: more)), more.length + 1) := by
        rw [readFrom_of_isNameStart hname.1, htaken, List.length_cons]
      rw [scanFrom_of_read (Text.isBlank_of_isNameStart hname.1) hread, Nat.add_sub_cancel, hrest,
        List.drop_left, Nat.zero_add, Nat.max_eq_right (Nat.le_add_left 1 _), List.length_cons]

/-- A name that ends in no dot is one token. -/
theorem scan_of_getLast?_ne {name : String} (hname : Text.isName name.toList = true)
    (hdot : name.toList.getLast? ≠ some '.') :
    scan name = .ok ⟨[⟨ofWord name, 0⟩], name.toList.length⟩ := by
  have hlast : ∀ hne : name.toList ≠ [], ¬ (name.toList.getLast hne == '.') = true := by
    intro hne hdots
    rw [List.getLast?_eq_some_getLast hne, beq_iff_eq.mp hdots] at hdot
    exact hdot rfl
  rw [scan_of_isName hname (List.rdropWhile_eq_self_iff.mpr hlast)
    (List.rtakeWhile_eq_nil_iff.mpr hlast), scanFrom, String.ofList_toList]
  rfl

/-- In a name that ends in dots, the first of these is no token. -/
theorem scan_of_getLast?_eq {name : String} (hname : Text.isName name.toList = true)
    (hdot : name.toList.getLast? = some '.') :
    scan name =
      .error ⟨(name.toList.rdropWhile (· == '.')).length, .unexpectedChar '.'⟩ := by
  obtain ⟨init, hinit⟩ := List.getLast?_eq_some_iff.mp hdot
  cases hdots : name.toList.rtakeWhile (· == '.') with
  | nil =>
      rw [hinit, List.rtakeWhile_concat_pos _ _ _ rfl] at hdots
      exact absurd hdots (List.append_ne_nil_of_right_ne_nil _ (List.cons_ne_nil _ _))
  | cons d more =>
      have hd : d = '.' := by
        have hmem : d ∈ name.toList.rtakeWhile (· == '.') := by
          rw [hdots]
          exact List.mem_cons_self
        have hdot := List.mem_rtakeWhile_imp hmem
        exact beq_iff_eq.mp hdot
      rw [scan_of_isName hname rfl hdots, hd, scanFrom, if_neg (by decide)]
      rfl

end Token

namespace Expr

theorem parse_of_primary {s : String} {k : TokenKind} {stop : Nat} {e : Expr}
    (hscan : Token.scan s = .ok ⟨[⟨k, 0⟩], stop⟩) (h : Derives .primary 0 [k] e) :
    parse s = .ok e :=
  (parse_eq_ok_iff_parseOne hscan).mpr (parseOne_eq_ok_iff.mpr (h.ofPrimary .expression))

theorem parseLevel_of_error {stop room n : Nat} {ts : List Token} {err : ParseError}
    (h : parseUnary stop room ts = .error err) : parseLevel stop room n ts = .error err := by
  induction n with
  | zero => rw [parseLevel_zero, h]
  | succ n ih =>
      rw [parseLevel, ih]
      rfl

theorem parse_of_inWord {s : String} {stop : Nat}
    (hscan : Token.scan s = .ok ⟨[⟨.mark .inWord, 0⟩], stop⟩) :
    parse s = .error ⟨0, .unexpectedMark .inWord⟩ := by
  have hunary : parseUnary stop maxNesting [⟨.mark .inWord, 0⟩] =
      .error ⟨0, .unexpectedMark .inWord⟩ := by
    rw [parseUnary.eq_def]
    simp only [Mark.unaryOp?]
    rw [parsePrimary.eq_def]
  have hone : parseOne stop [⟨.mark .inWord, 0⟩] = .error ⟨0, .unexpectedMark .inWord⟩ :=
    parseLevel_of_error hunary
  rw [parse, hscan]
  change (parseOne stop [⟨.mark .inWord, 0⟩] >>= _) = _
  rw [hone]
  rfl

end Expr

/-! ## Variables -/

theorem Variables.get?_set (name : String) (v : Value) (vars : Variables) :
    (vars.set name v).get? name = some v := by
  induction vars with
  | nil => simp [set, get?]
  | cons d rest ih =>
      rcases d with ⟨n, w⟩
      rw [set]
      by_cases hn : n = name
      · simp [hn, get?]
      · rw [if_neg (by simpa using hn)]
        simpa [get?, List.lookup_cons, beq_false_of_ne (Ne.symm hn)] using ih

theorem Environment.exists_assign {env : Environment} {first : Layer} {rest : List Layer}
    (hlayers : env.layers = first :: rest) (hfirst : first.isWritable = true) (name : String)
    (v : Value) :
    ∃ env', env.assign name v = .ok env' ∧ ∀ site, env'.resolve name site = .ok v := by
  cases first with
  | store label vars =>
      refine ⟨{ env with layers := .store label (vars.set name v) :: rest }, ?_, ?_⟩
      · simp [assign, hlayers, splitWritable, Layer.isWritable, Layer.assign, Except.map]
      · intro site
        simp [resolve, lookup, Layer.lookup, Variables.get?_set]
  | _ => cases hfirst

/-- A variable that can be defined can be read.  After a value is assigned to a name that a
definition accepts, in a chain whose first layer takes writes, the expression that consists of
the name has that value, whatever the host, its state and the place.  Two kinds of names are
apart: `true`, `false` and `in` keep the meaning that they have in expressions, and a name that
ends in dots is refused at the first of them. -/
theorem evaluate_of_define (body name : String) (expr : Option String)
    (hdefine : Directive.parse body = .ok (.define name expr)) (v : Value) (env : Environment)
    (first : Layer) (rest : List Layer) (hlayers : env.layers = first :: rest)
    (hfirst : first.isWritable = true) :
    ∃ env', env.assign name v = .ok env' ∧
      ∀ (σ : Type) (host : Host σ) (site : Site) (s : σ),
        (evaluate host env' site name).run s =
          (if name = "true" then .ok (.bool true)
            else if name = "false" then .ok (.bool false)
            else if name = "in" then .error (.parse ⟨0, .unexpectedMark .inWord⟩)
            else if name.toList.getLast? = some '.' then
              .error (.parse
                ⟨(name.toList.rdropWhile (· == '.')).length, .unexpectedChar '.'⟩)
            else .ok v, s) := by
  obtain ⟨env', hassign, hresolve⟩ := Environment.exists_assign hlayers hfirst name v
  have hname : Text.isName name.toList = true := Directive.wellNamed_parse body _ hdefine
  refine ⟨env', hassign, fun σ host site s => ?_⟩
  unfold evaluate
  by_cases htrue : name = "true"
  · subst htrue
    have hscan := Token.scan_of_getLast?_ne hname (by decide)
    rw [Expr.parse_of_primary hscan (.literal (Nat.zero_le _)), if_pos rfl]
    rfl
  by_cases hfalse : name = "false"
  · subst hfalse
    have hscan := Token.scan_of_getLast?_ne hname (by decide)
    rw [Expr.parse_of_primary hscan (.literal (Nat.zero_le _)), if_neg htrue, if_pos rfl]
    rfl
  by_cases hin : name = "in"
  · subst hin
    have hscan := Token.scan_of_getLast?_ne hname (by decide)
    rw [Expr.parse_of_inWord hscan, if_neg htrue, if_neg hfalse, if_pos rfl]
    rfl
  rw [if_neg htrue, if_neg hfalse, if_neg hin]
  by_cases hdot : name.toList.getLast? = some '.'
  · rw [Expr.parse, Token.scan_of_getLast?_eq hname hdot, if_pos hdot]
    rfl
  · have hscan := Token.scan_of_getLast?_ne hname hdot
    have hword : Token.ofWord name = .name name := by
      simp [Token.ofWord, htrue, hfalse, hin]
    rw [hword] at hscan
    rw [Expr.parse_of_primary hscan (.name (Nat.zero_le _)), if_neg hdot]
    simp only [Expr.eval, hresolve site]
    rfl

/-- A name with letters of two scripts and a dot inside is read back. -/
theorem evaluate_of_defineRadius :
    Directive.parse "define größe.Δr = 7" = .ok (.define "größe.Δr" (some "7")) ∧
      ∃ env', (⟨[.store "local" [], .system []], false⟩ : Environment).assign "größe.Δr"
          (.int 7) = .ok env' ∧
        ∀ (σ : Type) (host : Host σ) (site : Site) (s : σ),
          (evaluate host env' site "größe.Δr").run s = (.ok (.int 7), s) := by
  have hdefine : Directive.parse "define größe.Δr = 7" = .ok (.define "größe.Δr" (some "7")) :=
    eq_ok_of_toOption (by decide +kernel)
  refine ⟨hdefine, ?_⟩
  have hread := evaluate_of_define _ _ _ hdefine (.int 7)
    ⟨[.store "local" [], .system []], false⟩ _ _ rfl rfl
  rwa [if_neg (by decide), if_neg (by decide), if_neg (by decide), if_neg (by decide)] at hread

/-- Names of both kinds that are apart can be defined: `true` is read as another value than the
one assigned, and `a.` is not read at all. -/
theorem evaluate_of_defineApart :
    (Directive.parse "define true = 5" = .ok (.define "true" (some "5")) ∧
      ∃ env', (⟨[.store "local" []], false⟩ : Environment).assign "true" (.int 5) = .ok env' ∧
        ((evaluate (Host.declining Unit) env' ⟨⟨"A.java"⟩, 1⟩ "true").run ()).1 =
          .ok (.bool true)) ∧
    (Directive.parse "define a. = 5" = .ok (.define "a." (some "5")) ∧
      ∃ env', (⟨[.store "local" []], false⟩ : Environment).assign "a." (.int 5) = .ok env' ∧
        ∃ fault, ((evaluate (Host.declining Unit) env' ⟨⟨"A.java"⟩, 1⟩ "a.").run ()).1 =
          .error fault) := by
  refine ⟨⟨eq_ok_of_toOption (by decide +kernel), _, rfl, ?_⟩,
    ⟨eq_ok_of_toOption (by decide +kernel), _, rfl, ?_⟩⟩
  · exact eq_ok_of_toOption (by decide +kernel)
  · exact exists_error_of_toOption (by decide +kernel)

end Preprocessor
