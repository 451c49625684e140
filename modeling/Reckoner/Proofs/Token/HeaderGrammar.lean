import Reckoner.Proofs.Text.Classes
import Reckoner.Proofs.Token.Tiling

/-!
The grammar of function headers. The reader of headers goes over the text once, and the signs that
it finds on its way leave no trace in the tokens, so nothing behind it could tell a list that it
should not have accepted. Here the form of a header is written down as a grammar of texts, and the
reader is shown to accept the texts of that form and no others.
-/

set_option autoImplicit false
set_option relaxedAutoImplicit false

namespace Reckoner

open Text

namespace Header

/-! ### The form of a header -/

/-- A name with blanks around it, as a token at the place of the name. In a header it stands in
front of a sign, so that the word cannot be any longer. -/
inductive IsNamed (kind : TokenKind) (pos : Pos) : List Char → Token → Prop where
  | mk {before word behind : List Char} (hbefore : ∀ c ∈ before, isBlank c = true)
      (hword : IsName word) (hbehind : ∀ c ∈ behind, isBlank c = true) :
      IsNamed kind pos (before ++ word ++ behind) ⟨kind, String.ofList word, pos.after before⟩

/-- Parameters with single commas between them, at least one. -/
inductive AreParameters : Pos → List Char → List Token → Prop where
  | last {pos : Pos} {text : List Char} {token : Token}
      (htoken : IsNamed .parameter pos text token) : AreParameters pos text [token]
  | more {pos : Pos} {text others : List Char} {token : Token} {tokens : List Token}
      (htoken : IsNamed .parameter pos text token)
      (hothers : AreParameters (pos.after (text ++ [','])) others tokens) :
      AreParameters pos (text ++ ',' :: others) (token :: tokens)

/-- A list of parameters between its parentheses. -/
inductive IsList (pos : Pos) : List Char → List Token → Prop where
  | empty {blanks : List Char} (hblanks : ∀ c ∈ blanks, isBlank c = true) :
      IsList pos ('(' :: (blanks ++ [')'])) []
  | full {text : List Char} {tokens : List Token}
      (htokens : AreParameters (pos.after ['(']) text tokens) :
      IsList pos ('(' :: (text ++ [')'])) tokens

/-- An arrow behind blanks. The arrow that is a word ends where the text behind it starts. -/
inductive IsArrow (pos : Pos) : List Char → List Char → Token → Prop where
  | sign {blanks behind : List Char} (hblanks : ∀ c ∈ blanks, isBlank c = true) :
      IsArrow pos (blanks ++ ['=', '>']) behind ⟨.doubleArrow, "=>", pos.after blanks⟩
  | word {blanks behind : List Char} (hblanks : ∀ c ∈ blanks, isBlank c = true)
      (hbehind : ∀ c ∈ behind.head?, isWordChar c = false) :
      IsArrow pos (blanks ++ "flinq".toList) behind ⟨.doubleArrow, "flinq", pos.after blanks⟩

/-- A header from the position on, in front of the text behind it, and its tokens. -/
inductive IsHeader (pos : Pos) : List Char → List Char → List Token → Prop where
  | mk {nameText listText arrowText behind : List Char} {name arrow : Token}
      {parameters : List Token} (hname : IsNamed .functionName pos nameText name)
      (hlist : IsList (pos.after nameText) listText parameters)
      (harrow : IsArrow (pos.after (nameText ++ listText)) arrowText behind arrow) :
      IsHeader pos (nameText ++ listText ++ arrowText) behind (name :: (parameters ++ [arrow]))

/-- Whether neither a word nor blanks go on in the text. -/
def IsBorder (tail : List Char) : Prop :=
  ∀ c ∈ tail.head?, isBlank c = false ∧ isWordChar c = false

theorem isBorder_cons {c : Char} {tail : List Char} :
    IsBorder (c :: tail) ↔ isBlank c = false ∧ isWordChar c = false := by
  simp [IsBorder]

/-! ### The readers on texts of the form -/

variable {here next : Cursor} {text tail : List Char} {kind : TokenKind} {cause : LexError.Cause}
  {token : Token} {tokens : List Token}

theorem name?_of_head {word : List Char} (hrest : here.rest = word ++ tail) (hword : IsName word)
    (htail : ∀ c ∈ tail.head?, isWordChar c = false) : name? here = some word := by
  obtain ⟨c, rest, rfl, hletter, hall⟩ := hword
  have htaken : Lexeme.word (c :: rest ++ tail) = c :: rest :=
    (takeWhile_append_of_head htail).trans hall
  unfold name?
  rw [hrest, List.cons_append]
  dsimp only
  rw [if_pos hletter, ← List.cons_append, htaken]

theorem IsNamed.name_eq (h : IsNamed kind here.pos text token) (hrest : here.rest = text ++ tail)
    (htail : IsBorder tail) : name kind cause here = .ok (token, here.skip text) := by
  cases h with
  | @mk before word behind hbefore hword hbehind =>
    rw [List.append_assoc, List.append_assoc] at hrest
    have hstart := Cursor.skipBlanks_of_blanks hrest hbefore hword.head
    have hrest' := Cursor.rest_skip hrest
    -- the word ends where a blank or the border follows
    have hend : ∀ c ∈ (behind ++ tail).head?, isWordChar c = false := by
      cases behind with
      | nil => exact fun c hc ↦ (htail c hc).2
      | cons d behind =>
        intro c hc
        cases hc
        exact isWordChar_of_isBlank (hbehind d List.mem_cons_self)
    have hnext := Cursor.skipBlanks_of_blanks (Cursor.rest_skip hrest') hbehind
      fun c hc ↦ (htail c hc).1
    rw [name, hstart, name?_of_head hrest' hword hend]
    dsimp only
    rw [hnext, Cursor.skip_append, Cursor.skip_append]
    rfl

theorem IsNamed.exists_letter {pos : Pos} (h : IsNamed kind pos text token) :
    ∃ blanks c more, text = blanks ++ c :: more ∧ (∀ d ∈ blanks, isBlank d = true) ∧
      isLetter c = true := by
  cases h with
  | @mk before word behind hbefore hword hbehind =>
    obtain ⟨c, rest, rfl, hletter, -⟩ := hword
    exact ⟨before, c, rest ++ behind, by simp, hbefore, hletter⟩

/-- No name can be read where the blanks end and no letter follows. -/
theorem name_eq_error {blanks : List Char} (hrest : here.rest = blanks ++ tail)
    (hblanks : ∀ c ∈ blanks, isBlank c = true)
    (htail : ∀ c ∈ tail.head?, isBlank c = false ∧ isLetter c = false) :
    name kind cause here = .error ⟨cause, here.pos.after blanks⟩ := by
  have hstart := Cursor.skipBlanks_of_blanks hrest hblanks fun c hc ↦ (htail c hc).1
  have hnone : name? (here.skip blanks) = none := by
    unfold name?
    rw [Cursor.rest_skip hrest]
    cases tail with
    | nil => rfl
    | cons c tail => simp [(htail c rfl).2]
  rw [name, hstart, hnone]
  rfl

/-- What becomes of parameters that have been read up to the cursor. The sign there decides. -/
def goOn (found : List Token) (here : Cursor) : Except LexError (List Token × Cursor) :=
  match here.rest with
  | ')' :: _ => .ok (found, here.skip [')'])
  | ',' :: _ => (parameters (here.skip [','])).map fun (others, behind) ↦ (found ++ others, behind)
  | _ => .error ⟨.missingParameterEnd, here.pos⟩

theorem goOn_append (first second : List Token) (here : Cursor) :
    goOn (first ++ second) here =
      (goOn second here).map fun (found, behind) ↦ (first ++ found, behind) := by
  unfold goOn
  split
  · rfl
  · cases parameters (here.skip [',']) with
    | error error => rfl
    | ok found => simp [Except.map]
  · rfl

theorem AreParameters.parameters_eq (here : Cursor) (h : AreParameters here.pos text tokens)
    (hrest : here.rest = text ++ tail) (htail : IsBorder tail) :
    parameters here = goOn tokens (here.skip text) := by
  generalize hpos : here.pos = pos at h
  induction h generalizing here with
  | @last pos text token htoken =>
    subst hpos
    rw [Header.parameters_eq, htoken.name_eq hrest htail]
    rfl
  | @more pos text others token tokens htoken hothers ih =>
    subst hpos
    rw [List.append_assoc, List.cons_append] at hrest
    have hborder : IsBorder (',' :: (others ++ tail)) := isBorder_cons.mpr (by decide)
    have hcomma := Cursor.rest_skip hrest
    have hothersRest : ((here.skip text).skip [',']).rest = others ++ tail :=
      Cursor.rest_skip hcomma
    have hbehind := ih _ hothersRest (Pos.after_append _ _ _).symm
    have hskip : ((here.skip text).skip [',']).skip others = here.skip (text ++ ',' :: others) := by
      rw [← Cursor.skip_append, ← Cursor.skip_append, List.singleton_append]
    rw [Header.parameters_eq, htoken.name_eq hrest hborder]
    dsimp only
    rw [hcomma]
    change Except.map _ (parameters ((here.skip text).skip [','])) = _
    rw [hbehind, hskip]
    exact (goOn_append [token] tokens _).symm

theorem AreParameters.exists_letter {pos : Pos} (h : AreParameters pos text tokens) :
    ∃ blanks c more, text = blanks ++ c :: more ∧ (∀ d ∈ blanks, isBlank d = true) ∧
      isLetter c = true := by
  cases h with
  | last htoken => exact htoken.exists_letter
  | more htoken hothers =>
    obtain ⟨blanks, c, more, rfl, hblanks, hletter⟩ := htoken.exists_letter
    exact ⟨blanks, c, _, by rw [List.append_assoc, List.cons_append], hblanks, hletter⟩

/-- The blanks behind the opening parenthesis are passed over twice if parameters follow. -/
theorem parameterList_of_paren (hrest : here.rest = '(' :: tail) :
    parameterList here =
      match (here.skip ['(']).skipBlanks.rest with
      | ')' :: _ => .ok ([], (here.skip ['(']).skipBlanks.skip [')'])
      | _ => parameters (here.skip ['(']) := by
  have hparameters : parameters (here.skip ['(']).skipBlanks = parameters (here.skip ['(']) := by
    rw [parameters_eq, parameters_eq, name, name, Cursor.skipBlanks_idem]
  rw [parameterList, hrest]
  dsimp only
  rw [hparameters]
  rfl

theorem AreParameters.parameterList_eq (here : Cursor)
    (h : AreParameters (here.pos.after ['(']) text tokens)
    (hrest : here.rest = '(' :: text ++ tail) (htail : IsBorder tail) :
    parameterList here = goOn tokens (here.skip ('(' :: text)) := by
  have hrest' : (here.skip ['(']).rest = text ++ tail := Cursor.rest_skip hrest
  obtain ⟨blanks, c, more, rfl, hblanks, hletter⟩ := h.exists_letter
  have hstart : (here.skip ['(']).skipBlanks.rest = c :: (more ++ tail) := by
    rw [List.append_assoc] at hrest'
    rw [Cursor.skipBlanks_of_blanks hrest' hblanks fun d hd ↦ ?_, Cursor.rest_skip hrest',
      List.cons_append]
    cases hd
    exact isBlank_of_isLetter hletter
  -- the first parameter does not start with the closing parenthesis
  have hclose : c ≠ ')' := by
    rintro rfl
    exact absurd hletter (by decide)
  rw [parameterList_of_paren hrest, hstart]
  split
  · next heq => exact absurd (List.cons.inj heq).1 hclose
  · rw [AreParameters.parameters_eq (here.skip ['(']) h hrest' htail, ← Cursor.skip_append]
    rfl

theorem IsList.parameterList_eq (here : Cursor) (h : IsList here.pos text tokens)
    (hrest : here.rest = text ++ tail) : parameterList here = .ok (tokens, here.skip text) := by
  cases h with
  | @empty blanks hblanks =>
    have hparen : here.rest = '(' :: (blanks ++ ')' :: tail) := by simp [hrest]
    have hinner : (here.skip ['(']).rest = blanks ++ ')' :: tail :=
      Cursor.rest_skip hparen
    have hstart := Cursor.skipBlanks_of_blanks hinner hblanks fun c hc ↦ by cases hc; decide
    rw [parameterList_of_paren hparen, hstart, Cursor.rest_skip hinner, ← Cursor.skip_append,
      ← Cursor.skip_append]
    rfl
  | @full text tokens htokens =>
    have hparen : here.rest = '(' :: text ++ ')' :: tail := by simp [hrest]
    have hborder : IsBorder (')' :: tail) := isBorder_cons.mpr (by decide)
    rw [htokens.parameterList_eq here hparen hborder, goOn, Cursor.rest_skip hparen,
      ← Cursor.skip_append]
    rfl

theorem IsArrow.arrow_eq (here : Cursor) (h : IsArrow here.pos text tail token)
    (hrest : here.rest = text ++ tail) : arrow here = .ok (token, here.skip text) := by
  cases h with
  | @sign blanks _ hblanks =>
    rw [List.append_assoc] at hrest
    have hstart := Cursor.skipBlanks_of_blanks hrest hblanks fun c hc ↦ by cases hc; decide
    rw [arrow_of_sign (hstart ▸ Cursor.rest_skip hrest), hstart, Cursor.skip_append]
    rfl
  | @word blanks _ hblanks hbehind =>
    rw [List.append_assoc] at hrest
    have hstart := Cursor.skipBlanks_of_blanks hrest hblanks fun c hc ↦ by cases hc; decide
    have hword : Lexeme.word ("flinq".toList ++ tail) = "flinq".toList :=
      (takeWhile_append_of_head hbehind).trans (by decide)
    have hsign (more : List Char) : here.skipBlanks.rest ≠ '=' :: '>' :: more := by
      rw [hstart, Cursor.rest_skip hrest]
      exact fun heq ↦ absurd (List.cons.inj heq).1 (by decide)
    rw [arrow_of_no_sign hsign, hstart, Cursor.rest_skip hrest, hword, if_pos rfl,
      Cursor.skip_append]
    rfl

theorem read_of_ok {name arrow : Token} {parameters : List Token} {second third last : Cursor}
    (hname : Header.name .functionName .missingFunctionName here = .ok (name, second))
    (hlist : parameterList second = .ok (parameters, third))
    (harrow : Header.arrow third = .ok (arrow, last)) :
    read here = .ok (name :: (parameters ++ [arrow]), last) := by
  simp [read, hname, hlist, harrow, bind, Except.bind, pure, Except.pure]

theorem IsList.isBorder {pos : Pos} (h : IsList pos text tokens) (tail : List Char) :
    IsBorder (text ++ tail) := by
  cases h <;> exact isBorder_cons.mpr (by decide)

/-- The reader takes a header that stands at the cursor. -/
theorem IsHeader.read_eq (here : Cursor) (h : IsHeader here.pos text tail tokens)
    (hrest : here.rest = text ++ tail) : read here = .ok (tokens, here.skip text) := by
  cases h with
  | @mk nameText listText arrowText _ name arrow parameters hname hlist harrow =>
    rw [List.append_assoc, List.append_assoc] at hrest
    have hlistRest := Cursor.rest_skip hrest
    have harrowRest := Cursor.rest_skip hlistRest
    rw [Pos.after_append] at harrow
    rw [Cursor.skip_append, Cursor.skip_append]
    exact read_of_ok (hname.name_eq hrest (hlist.isBorder _))
      (IsList.parameterList_eq (here.skip nameText) hlist hlistRest)
      (IsArrow.arrow_eq ((here.skip nameText).skip listText) harrow harrowRest)

/-! ### What the readers accept -/

theorem exists_isNamed (h : name kind cause here = .ok (token, next)) :
    ∃ text, IsNamed kind here.pos text token ∧ here.Passes text next := by
  unfold name at h
  dsimp only at h
  split at h
  · cases h
  · next word hname =>
    cases h
    have hword := isName_of_name? hname
    obtain rfl := word_of_name? hname
    have hpasses := (here.passes_skipBlanks.trans here.skipBlanks.passes_word).trans
      (Cursor.passes_skipBlanks _)
    refine ⟨_, ?_, hpasses⟩
    exact .mk (fun c hc ↦ List.mem_takeWhile_imp hc) hword fun c hc ↦ List.mem_takeWhile_imp hc

theorem exists_areParameters (h : parameters here = .ok (tokens, next)) :
    ∃ text, AreParameters here.pos text tokens ∧ here.Passes (text ++ [')']) next := by
  fun_induction parameters here generalizing tokens next with
  | case1 => cases h
  | case2 here token behind hname rest hrest =>
    cases h
    obtain ⟨text, htoken, hpasses⟩ := exists_isNamed hname
    exact ⟨text, .last htoken, hpasses.trans (Cursor.passes_char hrest)⟩
  | case3 here token behind hname rest hrest ih =>
    obtain ⟨⟨others, last⟩, hothers, hfound⟩ := exists_of_map_eq_ok h
    obtain ⟨rfl, rfl⟩ := Prod.mk.inj hfound
    obtain ⟨text, htoken, hpasses⟩ := exists_isNamed hname
    obtain ⟨more, hmore, hpasses'⟩ := ih hothers
    have hcomma := hpasses.trans (Cursor.passes_char hrest)
    refine ⟨text ++ ',' :: more, .more htoken ?_, ?_⟩
    · rw [hcomma.next] at hmore
      exact hmore
    · simpa using hcomma.trans hpasses'
  | case4 => cases h

theorem exists_isList (h : parameterList here = .ok (tokens, next)) :
    ∃ text, IsList here.pos text tokens ∧ here.Passes text next := by
  by_cases hparen : ∃ rest, here.rest = '(' :: rest
  · obtain ⟨rest, hrest⟩ := hparen
    have hinner := Cursor.passes_char hrest
    rw [parameterList_of_paren hrest] at h
    split at h
    · next more hmore =>
      cases h
      have hpasses := hinner.trans ((Cursor.passes_skipBlanks _).trans (Cursor.passes_char hmore))
      refine ⟨_, ?_, hpasses⟩
      exact .empty fun c hc ↦ List.mem_takeWhile_imp hc
    · obtain ⟨text, htokens, hpasses⟩ := exists_areParameters h
      exact ⟨_, .full htokens, hinner.trans hpasses⟩
  · unfold parameterList at h
    split at h
    · next rest hrest => exact absurd ⟨rest, hrest⟩ hparen
    · cases h

theorem exists_isArrow (h : arrow here = .ok (token, next)) :
    ∃ text, IsArrow here.pos text next.rest token ∧ here.Passes text next := by
  have hblanks : ∀ c ∈ here.rest.takeWhile isBlank, isBlank c = true :=
    fun c hc ↦ List.mem_takeWhile_imp hc
  by_cases hsign : ∃ more, here.skipBlanks.rest = '=' :: '>' :: more
  · obtain ⟨more, hmore⟩ := hsign
    rw [arrow_of_sign hmore] at h
    cases h
    exact ⟨_, .sign hblanks, here.passes_skipBlanks.trans ⟨⟨more, hmore.symm⟩, rfl⟩⟩
  · rw [arrow_of_no_sign (not_exists.mp hsign)] at h
    split at h
    · next hword =>
      cases h
      have hpasses := here.skipBlanks.passes_word
      have hends := Lexeme.head_of_word hpasses.rest_eq
      rw [hword] at hpasses hends ⊢
      exact ⟨_, .word hblanks hends, here.passes_skipBlanks.trans hpasses⟩
    · cases h

/-- What the reader takes is a header. -/
theorem exists_isHeader (h : read here = .ok (tokens, next)) :
    ∃ text, IsHeader here.pos text next.rest tokens ∧ here.Passes text next := by
  obtain ⟨name, behindName, parameters, behindList, arrow, hname, hlist, harrow, rfl⟩ :=
    exists_of_read_eq_ok h
  obtain ⟨nameText, hname, hbehindName⟩ := exists_isNamed hname
  obtain ⟨listText, hlist, hbehindList⟩ := exists_isList hlist
  obtain ⟨arrowText, harrow, hbehind⟩ := exists_isArrow harrow
  have hpasses := hbehindName.trans hbehindList
  refine ⟨_, .mk hname ?_ ?_, hpasses.trans hbehind⟩
  · rw [hbehindName.next] at hlist
    exact hlist
  · rw [hpasses.next] at harrow
    exact harrow

theorem read_eq_ok_iff : read here = .ok (tokens, next) ↔
    ∃ text tail, here.rest = text ++ tail ∧ IsHeader here.pos text tail tokens ∧
      next = here.skip text := by
  constructor
  · intro h
    obtain ⟨text, hheader, hpasses⟩ := exists_isHeader h
    exact ⟨text, next.rest, hpasses.rest_eq, hheader, hpasses.next⟩
  · rintro ⟨text, tail, hrest, hheader, rfl⟩
    exact hheader.read_eq here hrest

/-- A text has at most one header at its front. -/
theorem IsHeader.unique {pos : Pos} {text' tail' : List Char} {tokens' : List Token}
    (h : IsHeader pos text tail tokens) (h' : IsHeader pos text' tail' tokens')
    (heq : text ++ tail = text' ++ tail') : text = text' ∧ tokens = tokens' := by
  have hread := IsHeader.read_eq ⟨text ++ tail, pos⟩ h rfl
  have hread' := IsHeader.read_eq ⟨text ++ tail, pos⟩ h' heq
  rw [hread] at hread'
  obtain ⟨htokens, hnext⟩ := Prod.mk.inj (Except.ok.inj hread')
  have htail : tail = tail' := by
    have hrest := congrArg Cursor.rest hnext
    simp only [Cursor.skip, List.drop_left] at hrest
    rwa [heq, List.drop_left] at hrest
  rw [htail] at heq
  exact ⟨List.append_cancel_right heq, htokens⟩

/-! ### What the readers refuse -/

theorem read_of_list_error {second : Cursor} {error : LexError}
    (hname : name .functionName .missingFunctionName here = .ok (token, second))
    (hlist : parameterList second = .error error) : read here = .error error := by
  simp [read, hname, hlist, bind, Except.bind]

theorem read_of_arrow_error {second third : Cursor} {error : LexError}
    (hname : name .functionName .missingFunctionName here = .ok (token, second))
    (hlist : parameterList second = .ok (tokens, third))
    (harrow : arrow third = .error error) : read here = .error error := by
  simp [read, hname, hlist, harrow, bind, Except.bind]

/-- Behind its name a header goes on with a parenthesis. -/
theorem IsNamed.read_missing_paren (h : IsNamed .functionName here.pos text token)
    (hrest : here.rest = text ++ tail) (htail : IsBorder tail) (hparen : tail.head? ≠ some '(') :
    read here = .error ⟨.missingFunctionParen, here.pos.after text⟩ := by
  refine read_of_list_error (h.name_eq hrest htail) ?_
  rw [parameterList, Cursor.rest_skip hrest]
  split
  · exact absurd rfl hparen
  · rfl

section

variable {nameText : List Char} {name : Token}

/-- Behind parameters their list goes on with a comma or ends with a parenthesis. -/
theorem AreParameters.read_missing_end (hname : IsNamed .functionName here.pos nameText name)
    (h : AreParameters (here.pos.after (nameText ++ ['('])) text tokens)
    (hrest : here.rest = nameText ++ '(' :: text ++ tail) (htail : IsBorder tail)
    (hcomma : tail.head? ≠ some ',') (hparen : tail.head? ≠ some ')') :
    read here = .error ⟨.missingParameterEnd, here.pos.after (nameText ++ '(' :: text)⟩ := by
  rw [List.append_assoc] at hrest
  have hborder : IsBorder ('(' :: text ++ tail) := isBorder_cons.mpr (by decide)
  have hlist := Cursor.rest_skip hrest
  rw [Pos.after_append] at h
  refine read_of_list_error (hname.name_eq hrest hborder) ?_
  rw [AreParameters.parameterList_eq (here.skip nameText) h hlist htail, goOn,
    Cursor.rest_skip hlist, Pos.after_append here.pos]
  split
  · exact absurd rfl hparen
  · exact absurd rfl hcomma
  · rfl

/-- Behind a comma there is a name. -/
theorem AreParameters.read_missing_name (hname : IsNamed .functionName here.pos nameText name)
    (h : AreParameters (here.pos.after (nameText ++ ['('])) text tokens) {blanks : List Char}
    (hblanks : ∀ c ∈ blanks, isBlank c = true)
    (hrest : here.rest = nameText ++ '(' :: text ++ ',' :: blanks ++ tail)
    (htail : ∀ c ∈ tail.head?, isBlank c = false ∧ isLetter c = false) :
    read here = .error ⟨.missingParameterName,
      here.pos.after (nameText ++ '(' :: text ++ ',' :: blanks)⟩ := by
  have hrest' : here.rest = nameText ++ ('(' :: text ++ (',' :: (blanks ++ tail))) := by
    simp [hrest]
  have hborder : IsBorder ('(' :: text ++ (',' :: (blanks ++ tail))) :=
    isBorder_cons.mpr (by decide)
  have hcomma : IsBorder (',' :: (blanks ++ tail)) := isBorder_cons.mpr (by decide)
  have hlist := Cursor.rest_skip hrest'
  have hsign := Cursor.rest_skip hlist
  rw [Pos.after_append] at h
  refine read_of_list_error (hname.name_eq hrest' hborder) ?_
  have hmore : (((here.skip nameText).skip ('(' :: text)).skip [',']).rest = blanks ++ tail :=
    Cursor.rest_skip hsign
  have hnone := @name_eq_error _ _ .parameter .missingParameterName _ hmore hblanks htail
  have hpos : ((((here.skip nameText).skip ('(' :: text)).skip [',']).pos).after blanks =
      here.pos.after (nameText ++ '(' :: text ++ ',' :: blanks) := by
    simp only [Cursor.skip, ← Pos.after_append, List.append_assoc, List.singleton_append]
  rw [AreParameters.parameterList_eq (here.skip nameText) h hlist hcomma, goOn, hsign]
  change (parameters _).map _ = _
  rw [Header.parameters_eq, hnone, hpos]
  rfl

/-- A word that only starts as the arrow does is no arrow. -/
theorem IsList.read_missing_arrow (hname : IsNamed .functionName here.pos nameText name)
    (h : IsList (here.pos.after nameText) text tokens) {blanks : List Char}
    (hblanks : ∀ c ∈ blanks, isBlank c = true) {c : Char} (hc : isWordChar c = true)
    (hrest : here.rest = nameText ++ text ++ blanks ++ "flinq".toList ++ c :: tail) :
    read here = .error ⟨.missingFunctionArrow, here.pos.after (nameText ++ text ++ blanks)⟩ := by
  have hrest' : here.rest = nameText ++ (text ++ (blanks ++ ("flinq".toList ++ c :: tail))) := by
    simp [hrest]
  have hlist := Cursor.rest_skip hrest'
  have harrow := Cursor.rest_skip hlist
  refine read_of_arrow_error (hname.name_eq hrest' (h.isBorder _))
    (IsList.parameterList_eq (here.skip nameText) h hlist) ?_
  have hstart := Cursor.skipBlanks_of_blanks harrow hblanks fun d hd ↦ by cases hd; decide
  have hsign (more : List Char) :
      ((here.skip nameText).skip text).skipBlanks.rest ≠ '=' :: '>' :: more := by
    rw [hstart, Cursor.rest_skip harrow]
    exact fun heq ↦ absurd (List.cons.inj heq).1 (by decide)
  have hword : Lexeme.word ("flinq".toList ++ c :: tail) ≠ "flinq".toList := by
    have hflinq : ∀ d ∈ "flinq".toList, isWordChar d = true :=
      List.all_eq_true.mp (by decide)
    rw [Lexeme.word, List.takeWhile_append_of_pos hflinq, List.takeWhile_cons_of_pos hc]
    simp
  rw [arrow_of_no_sign hsign, hstart, Cursor.rest_skip harrow, if_neg hword]
  simp only [Cursor.skip, Pos.after_append]

end

/-- The reader of headers accepts its grammar. It takes a text just in case a header stands at the
front, no more than that header, and gives a token for the name, one for each parameter in order,
and one for the arrow, each at its own place; a text has one header at its front at most. It
fails on every other text: where no parenthesis follows the name, where neither a comma nor a
parenthesis follows a parameter, where no name follows a comma, be it the last one or one of two,
and where a word only starts as the arrow does. -/
theorem read_header (here : Cursor) :
    (∀ tokens next, read here = .ok (tokens, next) ↔ ∃ text tail, here.rest = text ++ tail ∧
        IsHeader here.pos text tail tokens ∧ next = here.skip text) ∧
    (∀ text tail tokens text' tail' tokens', IsHeader here.pos text tail tokens →
        IsHeader here.pos text' tail' tokens' → text ++ tail = text' ++ tail' →
          text = text' ∧ tokens = tokens') ∧
    ((∀ text tail tokens, here.rest = text ++ tail → ¬ IsHeader here.pos text tail tokens) →
        ∃ error, read here = .error error) ∧
    ∀ nameText name, IsNamed .functionName here.pos nameText name →
      (∀ tail, here.rest = nameText ++ tail → IsBorder tail → tail.head? ≠ some '(' →
        read here = .error ⟨.missingFunctionParen, here.pos.after nameText⟩) ∧
      (∀ text tokens, AreParameters (here.pos.after (nameText ++ ['('])) text tokens →
        (∀ tail, here.rest = nameText ++ '(' :: text ++ tail → IsBorder tail →
          tail.head? ≠ some ',' → tail.head? ≠ some ')' → read here =
            .error ⟨.missingParameterEnd, here.pos.after (nameText ++ '(' :: text)⟩) ∧
        ∀ blanks tail, (∀ c ∈ blanks, isBlank c = true) →
          here.rest = nameText ++ '(' :: text ++ ',' :: blanks ++ tail →
          (∀ c ∈ tail.head?, isBlank c = false ∧ isLetter c = false) →
            read here = .error ⟨.missingParameterName,
              here.pos.after (nameText ++ '(' :: text ++ ',' :: blanks)⟩) ∧
      ∀ text tokens blanks c tail, IsList (here.pos.after nameText) text tokens →
        (∀ c ∈ blanks, isBlank c = true) → isWordChar c = true →
        here.rest = nameText ++ text ++ blanks ++ "flinq".toList ++ c :: tail →
          read here = .error ⟨.missingFunctionArrow,
            here.pos.after (nameText ++ text ++ blanks)⟩ := by
  refine ⟨fun tokens next ↦ read_eq_ok_iff, fun _ _ _ _ _ _ h h' heq ↦ h.unique h' heq,
    fun hnone ↦ ?_, fun nameText name hname ↦ ⟨fun tail hrest htail hparen ↦ ?_,
      fun text tokens htokens ↦ ⟨fun tail hrest htail hcomma hparen ↦ ?_,
        fun blanks tail hblanks hrest htail ↦ ?_⟩,
      fun text tokens blanks c tail hlist hblanks hc hrest ↦ ?_⟩⟩
  · cases hread : read here with
    | error error => exact ⟨error, rfl⟩
    | ok found =>
      obtain ⟨text, tail, hrest, hheader, -⟩ := read_eq_ok_iff.mp hread
      exact absurd hheader (hnone text tail _ hrest)
  · exact hname.read_missing_paren hrest htail hparen
  · exact htokens.read_missing_end hname hrest htail hcomma hparen
  · exact htokens.read_missing_name hname hblanks hrest htail
  · exact hlist.read_missing_arrow hname hblanks hc hrest

/-- The ends of lines count in a header as blanks do, and a comma too many does not. -/
example : read (.ofText " add(a ,b)\r=>a") = .ok ([⟨.functionName, "add", ⟨1, 2⟩⟩,
      ⟨.parameter, "a", ⟨1, 6⟩⟩, ⟨.parameter, "b", ⟨1, 9⟩⟩, ⟨.doubleArrow, "=>", ⟨2, 1⟩⟩],
        ⟨['a'], ⟨2, 3⟩⟩) ∧
    read (.ofText " add(a,,b)=>a") = .error ⟨.missingParameterName, ⟨1, 8⟩⟩ := by
  decide +kernel

end Header

end Reckoner
