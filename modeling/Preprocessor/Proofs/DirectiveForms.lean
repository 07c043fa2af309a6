/-
Directives as they are written plainly.

A directive has a plain form: its keyword, one space and its argument, the sign of a switch, or the
text that is no directive.  Whatever a directive was read from, its plain form is read as the same
directive, so reading loses nothing but blanks.  A directive that was not read from a text can be
written and read back exactly if its names are names and its expressions have no blanks around them.
-/
import Preprocessor.Proofs.LiteralAgreement

namespace Preprocessor

/-! ## Texts without blanks at their ends -/

namespace Text

variable {cs ds : List Char}

theorem mem_head?_of_isPrefix (h : cs <+: ds) : ∀ c ∈ cs.head?, c ∈ ds.head? := by
  obtain ⟨rest, rfl⟩ := h
  intro c hc
  rw [List.head?_append, Option.mem_def.mp hc, Option.some_or]
  rfl

theorem of_mem_head?_dropWhile {p : Char → Bool} (cs : List Char) :
    ∀ c ∈ (cs.dropWhile p).head?, p c = false := by
  intro c hc
  have hfirst := List.head?_dropWhile_not p cs
  rw [Option.mem_def.mp hc] at hfirst
  exact hfirst

theorem trimEnd_isPrefix (cs : List Char) : trimEnd cs <+: cs :=
  List.rdropWhile_prefix _ _

theorem trimEnd_trimEnd (cs : List Char) : trimEnd (trimEnd cs) = trimEnd cs :=
  List.rdropWhile_idempotent _ _

theorem trimEnd_append (h : ∀ c ∈ cs, isBlank c = false) :
    trimEnd (cs ++ ds) = cs ++ trimEnd ds := by
  have hcs : ([] ++ cs.reverse).dropWhile isBlank = cs.reverse :=
    dropWhile_of_head? (List.forall_mem_nil _) fun c hc =>
      h c (List.mem_reverse.mp (List.mem_of_head? hc))
  rw [List.nil_append] at hcs
  rw [trimEnd, trimEnd, List.reverse_append, List.dropWhile_append]
  split
  · rename_i hnone
    rw [hcs, List.isEmpty_iff.mp hnone, List.reverse_reverse, List.reverse_nil, List.append_nil]
  · rw [List.reverse_append, List.reverse_reverse]

theorem trim_of_ends (hfirst : ∀ c ∈ cs.head?, isBlank c = false)
    (hlast : ∀ c ∈ cs.getLast?, isBlank c = false) : trim cs = cs := by
  have hstart : trimStart ([] ++ cs) = cs := dropWhile_of_head? (List.forall_mem_nil _) hfirst
  have hend : trimEnd cs = cs := by
    refine List.rdropWhile_eq_self_iff.mpr fun hne hblank => ?_
    rw [hlast _ (List.getLast?_eq_some_getLast hne)] at hblank
    cases hblank
  rw [List.nil_append] at hstart
  rw [trim, hstart, hend]

theorem isBlank_head?_trim (cs : List Char) : ∀ c ∈ (trim cs).head?, isBlank c = false := by
  intro c hc
  exact of_mem_head?_dropWhile cs c (mem_head?_of_isPrefix (trimEnd_isPrefix _) c hc)

theorem isBlank_getLast?_trim (cs : List Char) : ∀ c ∈ (trim cs).getLast?, isBlank c = false := by
  intro c hc
  obtain ⟨hne, rfl⟩ := List.mem_getLast?_eq_getLast hc
  exact Bool.eq_false_iff.mpr (List.rdropWhile_last_not isBlank (trimStart cs) hne)

theorem trim_trim (cs : List Char) : trim (trim cs) = trim cs :=
  trim_of_ends (isBlank_head?_trim cs) (isBlank_getLast?_trim cs)

theorem ne_nil_of_isName (h : isName cs = true) : cs ≠ [] := by
  rintro rfl
  cases h

theorem trim_of_isName (h : isName cs = true) : trim cs = cs :=
  trim_of_ends (fun c hc => isBlank_of_isName h c (List.mem_of_head? hc))
    fun c hc => isBlank_of_isName h c (List.mem_of_getLast? hc)

end Text

namespace Directive

/-! ## Plain forms -/

def worded (keyword args : String) : String :=
  keyword ++ " " ++ args

def assigned (name : String) : Option String → String
  | none => name
  | some expr => name ++ " = " ++ expr

def form : Directive → String
  | ifTrue expr => worded "if" expr
  | ifDefined name => worded "ifdef" name
  | ifNotDefined name => worded "ifndef" name
  | elseIf expr => worded "elif" expr
  | otherwise => "else"
  | endIf => "endif"
  | excludeIf expr => worded "excludeif" expr
  | define name expr => worded "define" (assigned name expr)
  | undefine name => worded "undef" name
  | defineGlobal name expr => worded "global" (assigned name expr)
  | includeFile expr => worded "include" expr
  | action args => worded "action" args
  | outname expr => worded "outname" expr
  | error expr => worded "error" expr
  | warning expr => worded "warning" expr
  | echo expr => worded "echo" expr
  | outputOff => "-"
  | outputOn => "+"
  | commentNext => "//"
  | unknown text => text

/-- An argument that there is something of, without blanks around it. -/
def IsArgument (expr : String) : Prop :=
  expr ≠ "" ∧ Text.trimmed expr = expr

/-- The names in a directive are names, and its expressions have no blanks around them. -/
def Arranged : Directive → Prop
  | ifTrue expr | elseIf expr | excludeIf expr | includeFile expr | action expr | outname expr
  | error expr | warning expr | echo expr => IsArgument expr
  | ifDefined name | ifNotDefined name | undefine name => Text.isName name.toList = true
  | define name expr | defineGlobal name expr =>
    Text.isName name.toList = true ∧ ∀ e ∈ expr, IsArgument e
  | otherwise | endIf | outputOff | outputOn | commentNext | unknown _ => True

/-! ## Reading the keyword -/

def IsWord (keyword : String) : Prop :=
  keyword ≠ "" ∧ keyword.toList.all isKeywordChar = true

instance (keyword : String) : Decidable (IsWord keyword) :=
  inferInstanceAs (Decidable (_ ∧ _))

theorem isKeywordChar_of_isBlank {c : Char} (h : Text.isBlank c = true) :
    isKeywordChar c = false :=
  Text.forall_of_isBlank (p := fun c => isKeywordChar c = false) (by decide) h

theorem isBlank_of_isKeywordChar {c : Char} (h : isKeywordChar c = true) :
    Text.isBlank c = false :=
  Text.isBlank_of_class isKeywordChar_of_isBlank h

theorem splitKeyword_append {word rest : List Char} (hword : ∀ c ∈ word, isKeywordChar c = true)
    (hrest : ∀ c ∈ rest.head?, isKeywordChar c = false) :
    splitKeyword (word ++ rest) = (String.ofList word, rest) := by
  rw [splitKeyword, Token.takeWhile_of_head? hword hrest, Text.dropWhile_of_head? hword hrest]

theorem ofBody_of_ne {body : List Char} (hmark : Text.after? ['/', '/'] body = none)
    (hoff : Text.trimEnd body ≠ ['-']) (hon : Text.trimEnd body ≠ ['+']) :
    ofBody body =
      if (splitKeyword body).2.head?.all Text.isBlank then
        ofKeyword (splitKeyword body).1 (Text.trim (splitKeyword body).2) body
      else .ok (.unknown (String.ofList (Text.trimEnd body))) := by
  rw [ofBody, hmark]
  dsimp only
  rw [if_neg (by simpa using hoff), if_neg (by simpa using hon)]

section

variable {keyword : String} (hword : IsWord keyword)

include hword

theorem ofBody_of_isWord {rest : List Char} (hrest : rest.head?.all Text.isBlank = true) :
    ofBody (keyword.toList ++ rest) =
      ofKeyword keyword (Text.trim rest) (keyword.toList ++ rest) := by
  obtain ⟨hne, hall⟩ := hword
  have hchars : ∀ c ∈ keyword.toList, isKeywordChar c = true := List.all_eq_true.mp hall
  have hblank : ∀ c ∈ rest.head?, isKeywordChar c = false := fun c hc =>
    isKeywordChar_of_isBlank ((Option.all_eq_true _ _).mp hrest c hc)
  -- a text that begins with the sign of a special form begins with no keyword
  have hfirst {sign : Char} {tail : List Char} (hsign : isKeywordChar sign = false) :
      ¬ sign :: tail <+: keyword.toList ++ rest := by
    intro hstarts
    have hhead := Text.mem_head?_of_isPrefix hstarts sign rfl
    have htext : keyword.toList ≠ [] := by simpa using hne
    rw [List.head?_append_of_ne_nil _ htext] at hhead
    rw [hchars sign (List.mem_of_head? hhead)] at hsign
    cases hsign
  have hmark : Text.after? ['/', '/'] (keyword.toList ++ rest) = none := by
    refine Option.eq_none_iff_forall_not_mem.mpr fun more hmore => ?_
    exact hfirst (by decide) ⟨more, (Text.eq_of_after? hmore).symm⟩
  have hswitch {sign : Char} (hsign : isKeywordChar sign = false) :
      Text.trimEnd (keyword.toList ++ rest) ≠ [sign] := fun htrim =>
    hfirst hsign (htrim ▸ Text.trimEnd_isPrefix _)
  rw [ofBody_of_ne hmark (hswitch (by decide)) (hswitch (by decide)),
    splitKeyword_append hchars hblank, if_pos hrest, String.ofList_toList]

theorem parse_worded (args : String) :
    parse (worded keyword args) =
      ofKeyword keyword (Text.trim args.toList) (worded keyword args).toList := by
  have hchars : (worded keyword args).toList = keyword.toList ++ ' ' :: args.toList := by
    simp [worded]
  rw [parse, hchars, ofBody_of_isWord hword rfl]
  rfl

theorem parse_word : parse keyword = ofKeyword keyword [] keyword.toList := by
  have hbody : ofBody (keyword.toList ++ []) = ofKeyword keyword [] (keyword.toList ++ []) :=
    ofBody_of_isWord hword rfl
  rwa [List.append_nil] at hbody

end

/-! ## Reading plain forms -/

theorem IsArgument.trim_toList {expr : String} (h : IsArgument expr) :
    Text.trim expr.toList = expr.toList := by
  rw [← String.toList_ofList (l := Text.trim expr.toList)]
  exact congrArg String.toList h.2

theorem IsArgument.isEmpty {expr : String} (h : IsArgument expr) :
    expr.toList.isEmpty = false := by
  simpa using h.1

theorem parse_expression {keyword expr : String} {f : String → Directive}
    (hword : IsWord keyword)
    (hof : ∀ args whole, ofKeyword keyword args whole = (expression keyword args).map f)
    (h : IsArgument expr) : parse (worded keyword expr) = .ok (f expr) := by
  rw [parse_worded hword, hof, h.trim_toList, expression, h.isEmpty, String.ofList_toList]
  rfl

theorem parse_singleName {keyword name : String} {f : String → Directive} (hword : IsWord keyword)
    (hof : ∀ args whole, ofKeyword keyword args whole = (singleName keyword args).map f)
    (h : Text.isName name.toList = true) : parse (worded keyword name) = .ok (f name) := by
  rw [parse_worded hword, hof, Text.trim_of_isName h, singleName, if_pos h, String.ofList_toList]
  rfl

theorem splitName_append {name rest : List Char} (hname : Text.isName name = true)
    (hrest : ∀ c ∈ rest.head?, Text.isNamePart c = false) :
    splitName (name ++ rest) = (name, rest) := by
  cases name with
  | nil => cases hname
  | cons c more =>
      rw [Text.isName, Bool.and_eq_true] at hname
      have hmore : ∀ d ∈ more, Text.isNamePart d = true := List.all_eq_true.mp hname.2
      rw [List.cons_append, splitName, if_pos hname.1, Token.takeWhile_of_head? hmore hrest,
        Text.dropWhile_of_head? hmore hrest]

theorem assignment_assigned (keyword : String) {name : String} {expr : Option String}
    (hname : Text.isName name.toList = true) (hexpr : ∀ e ∈ expr, IsArgument e) :
    assignment keyword (assigned name expr).toList = .ok (name, expr) := by
  have hne := Text.ne_nil_of_isName hname
  cases expr with
  | none =>
      have hsplit : splitName (name.toList ++ []) = (name.toList, []) :=
        splitName_append hname (by rintro c ⟨⟩)
      rw [List.append_nil] at hsplit
      rw [assignment, assigned, hsplit]
      simp [hne, Text.trimStart]
  | some e =>
      have hargument := hexpr e rfl
      have hchars : (assigned name (some e)).toList =
          name.toList ++ ' ' :: '=' :: ' ' :: e.toList := by
        simp [assigned]
      have hsplit : splitName (name.toList ++ ' ' :: '=' :: ' ' :: e.toList) =
          (name.toList, ' ' :: '=' :: ' ' :: e.toList) := by
        refine splitName_append hname ?_
        rintro c ⟨⟩
        decide +kernel
      have hstart : Text.trimStart (' ' :: '=' :: ' ' :: e.toList) = '=' :: ' ' :: e.toList := rfl
      have htrim : Text.trim (' ' :: e.toList) = e.toList := hargument.trim_toList
      rw [assignment, hchars, hsplit]
      simp [hne, hstart, htrim, hargument.1]

theorem trim_assigned {name : String} {expr : Option String}
    (hname : Text.isName name.toList = true) (hexpr : ∀ e ∈ expr, IsArgument e) :
    Text.trim (assigned name expr).toList = (assigned name expr).toList := by
  cases expr with
  | none => exact Text.trim_of_isName hname
  | some e =>
      have hargument := hexpr e rfl
      have hchars :
          (assigned name (some e)).toList = name.toList ++ (" = ".toList ++ e.toList) := by
        simp [assigned]
      have hne : e.toList ≠ [] := by simpa using hargument.1
      have hlast := Text.isBlank_getLast?_trim e.toList
      rw [hargument.trim_toList] at hlast
      rw [hchars]
      refine Text.trim_of_ends (fun c hc => ?_) fun c hc => ?_
      · rw [List.head?_append_of_ne_nil _ (Text.ne_nil_of_isName hname)] at hc
        exact Text.isBlank_of_isName hname c (List.mem_of_head? hc)
      · rw [List.getLast?_append_of_ne_nil _ (List.append_ne_nil_of_right_ne_nil _ hne),
          List.getLast?_append_of_ne_nil _ hne] at hc
        exact hlast c hc

theorem parse_assignment {keyword name : String} {expr : Option String}
    {f : String → Option String → Directive} (hword : IsWord keyword)
    (hof : ∀ args whole,
      ofKeyword keyword args whole = (assignment keyword args).map fun (n, e) => f n e)
    (hname : Text.isName name.toList = true) (hexpr : ∀ e ∈ expr, IsArgument e) :
    parse (worded keyword (assigned name expr)) = .ok (f name expr) := by
  rw [parse_worded hword, hof, trim_assigned hname hexpr, assignment_assigned keyword hname hexpr]
  rfl

/-- An arranged directive is read back from its plain form. -/
theorem parse_form_of_arranged {d : Directive} (hd : ∀ text, d ≠ .unknown text)
    (h : d.Arranged) : parse d.form = .ok d := by
  cases d with
  | ifTrue expr => exact parse_expression (by decide) (fun _ _ => rfl) h
  | ifDefined name => exact parse_singleName (by decide) (fun _ _ => rfl) h
  | ifNotDefined name => exact parse_singleName (by decide) (fun _ _ => rfl) h
  | elseIf expr => exact parse_expression (by decide) (fun _ _ => rfl) h
  | otherwise => exact parse_word (by decide)
  | endIf => exact parse_word (by decide)
  | excludeIf expr => exact parse_expression (by decide) (fun _ _ => rfl) h
  | define name expr => exact parse_assignment (by decide) (fun _ _ => rfl) h.1 h.2
  | undefine name => exact parse_singleName (by decide) (fun _ _ => rfl) h
  | defineGlobal name expr => exact parse_assignment (by decide) (fun _ _ => rfl) h.1 h.2
  | includeFile expr => exact parse_expression (by decide) (fun _ _ => rfl) h
  | action args => exact parse_expression (by decide) (fun _ _ => rfl) h
  | outname expr => exact parse_expression (by decide) (fun _ _ => rfl) h
  | error expr => exact parse_expression (by decide) (fun _ _ => rfl) h
  | warning expr => exact parse_expression (by decide) (fun _ _ => rfl) h
  | echo expr => exact parse_expression (by decide) (fun _ _ => rfl) h
  | outputOff => rfl
  | outputOn => rfl
  | commentNext => rfl
  | unknown text => exact absurd rfl (hd text)

/-! ## What is read is arranged -/

section

variable (keyword : String)

theorem isArgument_ofList_trim {cs : List Char} (h : (Text.trim cs).isEmpty = false) :
    IsArgument (String.ofList (Text.trim cs)) := by
  constructor
  · simpa using h
  · rw [Text.trimmed, String.toList_ofList, Text.trim_trim]

theorem isArgument_expression (cs : List Char) :
    ValuesIn IsArgument (expression keyword (Text.trim cs)) := by
  unfold expression
  split
  · exact .error _
  · rename_i hne
    exact .ok (isArgument_ofList_trim (Bool.eq_false_iff.mpr hne))

theorem isArgument_assignment (args : List Char) :
    ValuesIn (fun d => ∀ e ∈ d.2, IsArgument e) (assignment keyword args) := by
  unfold assignment
  dsimp only
  split
  · exact .error _
  · split
    · exact .ok (by rintro e ⟨⟩)
    · exact .error _
    · split
      · exact .error _
      · rename_i hne
        refine .ok ?_
        rintro e ⟨⟩
        exact isArgument_ofList_trim (Bool.eq_false_iff.mpr hne)
    · exact .error _

theorem arranged_ofKeyword (cs whole : List Char) :
    ValuesIn Arranged (ofKeyword keyword (Text.trim cs) whole) := by
  have hexpression {f : String → Directive} (hf : ∀ expr, IsArgument expr → (f expr).Arranged) :
      ValuesIn Arranged ((expression keyword (Text.trim cs)).map f) :=
    (isArgument_expression keyword cs).map hf
  have hnone {d : Directive} (hd : d.Arranged) :
      ValuesIn Arranged (noArguments keyword (Text.trim cs) d) := .ite (.ok hd) (.error _)
  have hname := isName_singleName keyword (Text.trim cs)
  have hassignment : ValuesIn
      (fun d => Text.isName d.1.toList = true ∧ ∀ e ∈ d.2, IsArgument e)
      (assignment keyword (Text.trim cs)) :=
    fun d hd => ⟨isName_assignment keyword _ d hd, isArgument_assignment keyword _ d hd⟩
  -- the keywords in their order, and any other
  exact .ite (hexpression fun _ h => h) <| .ite (hname.map fun _ h => h) <|
    .ite (hname.map fun _ h => h) <| .ite (hexpression fun _ h => h) <|
    .ite (hnone trivial) <| .ite (hnone trivial) <| .ite (hexpression fun _ h => h) <|
    .ite (hassignment.map fun _ h => h) <| .ite (hname.map fun _ h => h) <|
    .ite (hassignment.map fun _ h => h) <| .ite (hexpression fun _ h => h) <|
    .ite (hexpression fun _ h => h) <| .ite (hexpression fun _ h => h) <|
    .ite (hexpression fun _ h => h) <| .ite (hexpression fun _ h => h) <|
    .ite (hexpression fun _ h => h) <| .ok trivial

end

theorem arranged_parse (body : String) : ValuesIn Arranged (parse body) := by
  unfold parse ofBody
  split
  · exact .ok trivial
  · exact .ite (.ok trivial) <| .ite (.ok trivial) <|
      .ite (arranged_ofKeyword _ _ _) (.ok trivial)

/-! ## Texts that are no directive -/

theorem ofKeyword_of_unknown {keyword text : String} {args whole : List Char}
    (h : ofKeyword keyword args whole = .ok (.unknown text)) (args' whole' : List Char) :
    ofKeyword keyword args' whole' = .ok (.unknown (String.ofList (Text.trimEnd whole'))) := by
  have hmap {α : Type} {f : α → Directive} {r : Except Fault α} (hf : ∀ a, f a ≠ .unknown text)
      (hr : r.map f = .ok (.unknown text)) : False := by
    obtain ⟨a, -, ha⟩ := exists_of_map_eq_ok hr
    exact hf a ha
  have hnone {d : Directive} (hd : d ≠ .unknown text)
      (hr : noArguments keyword args d = .ok (.unknown text)) : False := by
    unfold noArguments at hr
    split at hr
    · exact hd (Except.ok.inj hr)
    · cases hr
  unfold ofKeyword at h
  iterate 4
    rcases ite_eq_iff.mp h with ⟨-, h'⟩ | ⟨_, h⟩
    · exact (hmap (fun _ => Directive.noConfusion) h').elim
  iterate 2
    rcases ite_eq_iff.mp h with ⟨-, h'⟩ | ⟨_, h⟩
    · exact (hnone Directive.noConfusion h').elim
  iterate 10
    rcases ite_eq_iff.mp h with ⟨-, h'⟩ | ⟨_, h⟩
    · exact (hmap (fun _ => Directive.noConfusion) h').elim
  unfold ofKeyword
  iterate 16 refine (if_neg (by assumption)).trans ?_
  rfl

theorem splitKeyword_trimEnd (body : List Char) :
    splitKeyword (Text.trimEnd body) =
      ((splitKeyword body).1, Text.trimEnd (splitKeyword body).2) := by
  have hword : ∀ c ∈ body.takeWhile isKeywordChar, isKeywordChar c = true :=
    fun c hc => List.mem_takeWhile_imp hc
  have hrest : ∀ c ∈ (Text.trimEnd (body.dropWhile isKeywordChar)).head?,
      isKeywordChar c = false := by
    intro c hc
    have hhead := Text.mem_head?_of_isPrefix (Text.trimEnd_isPrefix _) c hc
    exact Text.of_mem_head?_dropWhile body c hhead
  have hbody : Text.trimEnd body =
      body.takeWhile isKeywordChar ++ Text.trimEnd (body.dropWhile isKeywordChar) := by
    rw [← Text.trimEnd_append fun c hc => isBlank_of_isKeywordChar (hword c hc),
      List.takeWhile_append_dropWhile]
  rw [hbody, splitKeyword_append hword hrest, splitKeyword]

theorem all_isBlank_trimEnd (cs : List Char) :
    (Text.trimEnd cs).head?.all Text.isBlank = cs.head?.all Text.isBlank := by
  cases cs with
  | nil => rfl
  | cons c more =>
      cases hc : Text.isBlank c with
      | false =>
          have hcons : Text.trimEnd (c :: more) = c :: Text.trimEnd more :=
            Text.trimEnd_append (List.forall_mem_singleton.mpr hc)
          rw [hcons]
          rfl
      | true =>
          rw [List.head?_cons, Option.all_some, hc, Option.all_eq_true]
          intro d hd
          have hhead := Text.mem_head?_of_isPrefix (Text.trimEnd_isPrefix _) d hd
          cases hhead
          exact hc

/-- The text of an unknown directive is read as the same. -/
theorem ofBody_of_unknown {body : List Char} {text : String}
    (h : ofBody body = .ok (.unknown text)) : ofBody text.toList = .ok (.unknown text) := by
  have hmark : Text.after? ['/', '/'] body = none := by
    cases hafter : Text.after? ['/', '/'] body with
    | none => rfl
    | some more =>
        rw [ofBody, hafter] at h
        cases h
  have hoff : Text.trimEnd body ≠ ['-'] := by
    intro htrim
    rw [ofBody, hmark, htrim] at h
    cases h
  have hon : Text.trimEnd body ≠ ['+'] := by
    intro htrim
    rw [ofBody, hmark, htrim] at h
    cases h
  have hmark' : Text.after? ['/', '/'] (Text.trimEnd body) = none := by
    refine Option.eq_none_iff_forall_not_mem.mpr fun more hmore => ?_
    obtain ⟨blanks, hblanks⟩ := Text.trimEnd_isPrefix body
    rw [Text.eq_of_after? hmore, List.append_assoc] at hblanks
    rw [← hblanks, Text.after?_append] at hmark
    cases hmark
  have hread := ofBody_of_ne hmark' (by rwa [Text.trimEnd_trimEnd]) (by rwa [Text.trimEnd_trimEnd])
  rw [splitKeyword_trimEnd, all_isBlank_trimEnd, Text.trimEnd_trimEnd] at hread
  rw [ofBody_of_ne hmark hoff hon] at h
  split at h
  · rename_i hblank
    have hunknown := ofKeyword_of_unknown h
    obtain ⟨⟩ := h.symm.trans (hunknown _ body)
    rw [String.toList_ofList, hread, if_pos hblank, hunknown, Text.trimEnd_trimEnd]
  · rename_i hblank
    obtain ⟨⟩ := h
    rw [String.toList_ofList, hread, if_neg hblank]

/-- Directives have one plain form.  Whatever text a directive was read from, its plain form is read
as the same directive again.  Any directive but an unknown one can be written in its plain form and
read back exactly if its names are names and its expressions are not empty and have no blanks around
them. -/
theorem parse_form_iff (d : Directive) :
    (∀ body, parse body = .ok d → parse d.form = .ok d) ∧
      ((∀ text, d ≠ .unknown text) → (parse d.form = .ok d ↔ d.Arranged)) := by
  constructor
  · intro body h
    by_cases hd : ∃ text, d = .unknown text
    · obtain ⟨text, rfl⟩ := hd
      exact ofBody_of_unknown h
    · exact parse_form_of_arranged (not_exists.mp hd) (arranged_parse body d h)
  · intro hd
    exact ⟨arranged_parse d.form d, parse_form_of_arranged hd⟩

/-- A definition with blanks of several kinds, whose value begins with an equals sign, and a text
that only looks like a condition. -/
theorem parse_form_irregular :
    (parse "define\t größe.Δr=\u3000 = b \u00A0" = .ok (.define "größe.Δr" (some "= b")) ∧
      parse "define größe.Δr = = b" = .ok (.define "größe.Δr" (some "= b")) ∧
      (define "größe.Δr" (some "= b")).Arranged) ∧
    parse "if(x) \t" = .ok (.unknown "if(x)") ∧ parse "if(x)" = .ok (.unknown "if(x)") := by
  have hdefine : parse "define\t größe.Δr=\u3000 = b \u00A0" =
      .ok (.define "größe.Δr" (some "= b")) :=
    eq_ok_of_toOption (by decide +kernel)
  have hunknown : parse "if(x) \t" = .ok (.unknown "if(x)") :=
    eq_ok_of_toOption (by decide +kernel)
  obtain ⟨hform, harranged⟩ := parse_form_iff (.define "größe.Δr" (some "= b"))
  have hplain := hform _ hdefine
  have hunknown' := (parse_form_iff (.unknown "if(x)")).1 _ hunknown
  exact ⟨⟨hdefine, hplain, (harranged fun _ => Directive.noConfusion).mp hplain⟩, hunknown,
    hunknown'⟩

end Directive

end Preprocessor
