import Reckoner.Proofs.Text.Classes
import Reckoner.Proofs.Token.Kinds
import Reckoner.Proofs.Token.Terminator

/-!
What the tokens of a text are, apart from their positions. The scan reads lexemes, headers and
prints wherever they stand, so the kinds and texts of the tokens are built up from the front: a
lexeme, the names and punctuation of a header, or a print, in front of a text whose tokens are
known.
-/

set_option autoImplicit false
set_option relaxedAutoImplicit false

namespace Reckoner

open Text

/-- A token without its position. -/
def Token.spelling (token : Token) : TokenKind × String :=
  (token.kind, token.text)

/-- The words with a space in front of each. -/
def spaced (words : List (List Char)) : List Char :=
  words.flatMap (' ' :: ·)

theorem spaced_cons (word : List Char) (words : List (List Char)) :
    spaced (word :: words) = ' ' :: (word ++ spaced words) := by
  simp [spaced]

theorem spaced_append (first second : List (List Char)) :
    spaced (first ++ second) = spaced first ++ spaced second := by
  simp [spaced]

theorem spaced_eq_intercalate {words : List (List Char)} (h : words ≠ []) :
    spaced words = ' ' :: [' '].intercalate words := by
  induction words with
  | nil => exact absurd rfl h
  | cons word words ih =>
    cases words with
    | nil => simp [spaced]
    | cons next words =>
      rw [spaced_cons, ih (List.cons_ne_nil _ _)]
      simp

theorem isBlank_space : isBlank ' ' = true := by decide

theorem apart_spaced (words : List (List Char)) : Apart (spaced words) := by
  cases words with
  | nil => exact apart_nil
  | cons word words =>
    rw [spaced_cons]
    exact apart_cons.mpr (by decide)

namespace Cursor

variable {rest : List Char} {pos : Pos}

theorem skipBlanks_space : (Cursor.mk (' ' :: rest) pos).skipBlanks =
    (Cursor.mk rest (pos.advance ' ')).skipBlanks := by
  simp [skipBlanks, skip, isBlank_space]

theorem skipBlanks_of_head (h : ∀ c ∈ rest.head?, isBlank c = false) :
    (Cursor.mk rest pos).skipBlanks = ⟨rest, pos⟩ := by
  cases rest with
  | nil => rfl
  | cons c rest => simp [skipBlanks, skip, h c rfl]

end Cursor

namespace Header

/-- Whether the text is a name: a word that starts with a letter. -/
def IsName (text : List Char) : Prop :=
  ∃ c rest, text = c :: rest ∧ isLetter c = true ∧ Lexeme.word text = text

theorem isName_of_name? {here : Cursor} {text : List Char} (h : name? here = some text) :
    IsName text := by
  unfold name? at h
  split at h
  · cases h
  · next c rest hrest =>
    split at h
    · next hletter =>
      cases h
      refine ⟨c, Lexeme.word rest, ?_, hletter, Lexeme.word_word _⟩
      exact List.takeWhile_cons_of_pos (isWordChar_of_isLetter c hletter)
    · cases h

theorem isName_of_name {kind : TokenKind} {cause : LexError.Cause} {here next : Cursor}
    {token : Token} (h : name kind cause here = .ok (token, next)) :
    IsName token.text.toList := by
  unfold name at h
  dsimp only at h
  split at h
  · cases h
  · next text htext =>
    cases h
    rw [String.toList_ofList]
    exact isName_of_name? htext

theorem IsName.head {text behind : List Char} (h : IsName text) :
    ∀ c ∈ (text ++ behind).head?, isBlank c = false := by
  obtain ⟨c, rest, rfl, hletter, -⟩ := h
  intro d hd
  cases hd
  exact isBlank_of_isLetter hletter

theorem name?_append {text behind : List Char} {pos : Pos} (h : IsName text)
    (hbehind : Apart behind) : name? ⟨text ++ behind, pos⟩ = some text := by
  obtain ⟨c, rest, rfl, hletter, hword⟩ := h
  unfold name?
  dsimp only [List.cons_append]
  rw [if_pos hletter, ← List.cons_append, Lexeme.word_append hbehind, hword]

/-- A name is read together with the blanks around it. -/
theorem name_of_start {here : Cursor} {text behind : List Char} (kind : TokenKind)
    (cause : LexError.Cause) (hstart : here.skipBlanks.rest = text ++ ' ' :: behind)
    (h : IsName text) (hbehind : ∀ c ∈ behind.head?, isBlank c = false) :
    ∃ token pos, name kind cause here = .ok (token, ⟨behind, pos⟩) ∧
      token.spelling = (kind, String.ofList text) := by
  have hcursor : here.skipBlanks = ⟨text ++ ' ' :: behind, here.skipBlanks.pos⟩ := by
    rw [← hstart]
  have hapart : Apart (' ' :: behind) := apart_cons.mpr (by decide)
  have hnext : ((Cursor.mk (text ++ ' ' :: behind) here.skipBlanks.pos).skip text).skipBlanks =
      ⟨behind, (here.skipBlanks.pos.after text).advance ' '⟩ := by
    rw [← Cursor.skipBlanks_of_head hbehind, ← Cursor.skipBlanks_space]
    simp [Cursor.skip]
  unfold name
  dsimp only
  rw [hcursor, name?_append h hapart]
  dsimp only
  rw [hnext]
  exact ⟨_, _, rfl, rfl⟩

theorem exists_spaced_names (first : List Char) (others : List (List Char)) :
    ∃ tail, spaced ((first :: others).intersperse [','] ++ [[')']]) = ' ' :: (first ++ tail) := by
  cases others with
  | nil => exact ⟨_, spaced_cons first [[')']]⟩
  | cons second others =>
    exact ⟨_, spaced_cons first ([','] :: ((second :: others).intersperse [','] ++ [[')']]))⟩

/-- Names with commas between them, each word behind a space, are read as parameters. -/
theorem parameters_of_start {here : Cursor} {first : List Char} {others : List (List Char)}
    {behind : List Char} (hnames : ∀ text ∈ first :: others, IsName text)
    (hstart : ' ' :: here.skipBlanks.rest =
      spaced ((first :: others).intersperse [','] ++ [[')']]) ++ behind) :
    ∃ found pos, parameters here = .ok (found, ⟨behind, pos⟩) ∧
      found.map Token.spelling =
        (first :: others).map fun text ↦ (.parameter, String.ofList text) := by
  obtain ⟨hfirst, hothers⟩ := List.forall_mem_cons.mp hnames
  induction others generalizing here first with
  | nil =>
    have hrest : here.skipBlanks.rest = first ++ ' ' :: ')' :: behind := by
      simpa [spaced] using hstart
    obtain ⟨token, pos, hname, hspelling⟩ := name_of_start .parameter .missingParameterName hrest
      hfirst fun c hc ↦ by cases hc; decide
    refine ⟨[token], pos.after [')'], ?_, by simp [hspelling]⟩
    rw [parameters_eq, hname]
    rfl
  | cons second others ih =>
    obtain ⟨hsecond, hmore⟩ := List.forall_mem_cons.mp hothers
    have hrest : here.skipBlanks.rest = first ++ ' ' :: ',' ::
        (spaced ((second :: others).intersperse [','] ++ [[')']]) ++ behind) := by
      simpa [spaced] using hstart
    obtain ⟨token, pos, hname, hspelling⟩ := name_of_start .parameter .missingParameterName hrest
      hfirst fun c hc ↦ by cases hc; decide
    obtain ⟨tail, htail⟩ := exists_spaced_names second others
    rw [htail, List.cons_append, List.append_assoc] at hname
    have hnext (pos : Pos) :
        ' ' :: (Cursor.mk (' ' :: (second ++ (tail ++ behind))) pos).skipBlanks.rest =
          spaced ((second :: others).intersperse [','] ++ [[')']]) ++ behind := by
      rw [Cursor.skipBlanks_space, Cursor.skipBlanks_of_head hsecond.head, htail,
        List.cons_append, List.append_assoc]
    obtain ⟨found, pos', hfound, hspellings⟩ := ih hothers (hnext (pos.after [','])) hsecond hmore
    refine ⟨token :: found, pos', ?_, by simp [hspelling, hspellings]⟩
    rw [parameters_eq, hname]
    have hcomma : (Cursor.mk (',' :: ' ' :: (second ++ (tail ++ behind))) pos).skip [','] =
        ⟨' ' :: (second ++ (tail ++ behind)), pos.after [',']⟩ := rfl
    dsimp only
    rw [hcomma, hfound]
    rfl

/-- A parameter list is read behind its opening parenthesis. -/
theorem parameterList_spaced {names : List (List Char)} (behind : List Char) (pos : Pos)
    (hnames : ∀ text ∈ names, IsName text) :
    ∃ found pos', parameterList ⟨'(' :: (spaced (names.intersperse [','] ++ [[')']]) ++ behind),
        pos⟩ = .ok (found, ⟨behind, pos'⟩) ∧
      found.map Token.spelling = names.map fun text ↦ (.parameter, String.ofList text) := by
  have hskip (rest : List Char) : (Cursor.mk ('(' :: rest) pos).skip ['('] =
      ⟨rest, pos.after ['(']⟩ := rfl
  unfold parameterList
  dsimp only
  rw [hskip]
  cases names with
  | nil => exact ⟨[], _, rfl, rfl⟩
  | cons first others =>
    obtain ⟨tail, htail⟩ := exists_spaced_names first others
    have hfirst : IsName first := hnames first List.mem_cons_self
    have hstart (pos : Pos) : (Cursor.mk (spaced ((first :: others).intersperse [','] ++ [[')']]) ++
        behind) pos).skipBlanks = ⟨first ++ (tail ++ behind), pos.advance ' '⟩ := by
      rw [htail, List.cons_append, List.append_assoc, Cursor.skipBlanks_space,
        Cursor.skipBlanks_of_head hfirst.head]
    have hnext (pos : Pos) :
        ' ' :: (Cursor.mk (first ++ (tail ++ behind)) pos).skipBlanks.rest =
          spaced ((first :: others).intersperse [','] ++ [[')']]) ++ behind := by
      rw [Cursor.skipBlanks_of_head hfirst.head, htail, List.cons_append, List.append_assoc]
    obtain ⟨found, pos', hfound, hspellings⟩ := parameters_of_start hnames
      (hnext ((pos.after ['(']).advance ' '))
    refine ⟨found, pos', ?_, hspellings⟩
    rw [hstart]
    -- a name does not start with the closing parenthesis
    obtain ⟨c, rest, rfl, hletter, -⟩ := hfirst
    have hclose : c ≠ ')' := by
      rintro rfl
      revert hletter
      decide
    simpa [hclose] using hfound

/-- An arrow is read behind a space. -/
theorem arrow_spaced {here next : Cursor} {token : Token} (words : List (List Char)) (pos : Pos)
    (h : arrow here = .ok (token, next)) :
    ∃ token' pos', arrow ⟨' ' :: (token.text.toList ++ spaced words), pos⟩ =
      .ok (token', ⟨spaced words, pos'⟩) ∧ token'.spelling = token.spelling := by
  have hstart (rest : List Char) (h : ∀ c ∈ rest.head?, isBlank c = false) :
      (Cursor.mk (' ' :: rest) pos).skipBlanks = ⟨rest, pos.advance ' '⟩ := by
    rw [Cursor.skipBlanks_space, Cursor.skipBlanks_of_head h]
  by_cases hsign : ∃ more, here.skipBlanks.rest = '=' :: '>' :: more
  · obtain ⟨more, hmore⟩ := hsign
    rw [arrow_of_sign hmore] at h
    cases h
    have hrest : (Cursor.mk (' ' :: ("=>".toList ++ spaced words)) pos).skipBlanks =
        ⟨'=' :: '>' :: spaced words, pos.advance ' '⟩ :=
      hstart _ fun c hc ↦ by cases hc; decide
    rw [arrow_of_sign (congrArg Cursor.rest hrest), hrest]
    exact ⟨_, _, rfl, rfl⟩
  · rw [arrow_of_no_sign (not_exists.mp hsign)] at h
    split at h
    · cases h
      have hrest : (Cursor.mk (' ' :: ("flinq".toList ++ spaced words)) pos).skipBlanks =
          ⟨"flinq".toList ++ spaced words, pos.advance ' '⟩ :=
        hstart _ fun c hc ↦ by cases hc; decide
      have hword : Lexeme.word ("flinq".toList ++ spaced words) = "flinq".toList := by
        rw [Lexeme.word_append (apart_spaced words)]
        decide
      have hno : ∀ more, (Cursor.mk (' ' :: ("flinq".toList ++ spaced words)) pos).skipBlanks.rest ≠
          '=' :: '>' :: more := by
        intro more hmore
        rw [hrest] at hmore
        cases hmore
      rw [arrow_of_no_sign hno, hrest, if_pos hword, hword]
      exact ⟨_, _, rfl, rfl⟩
    · cases h

theorem isName_of_parameters {here behind : Cursor} {tokens : List Token}
    (h : parameters here = .ok (tokens, behind)) : ∀ token ∈ tokens, IsName token.text.toList := by
  fun_induction parameters here generalizing tokens behind with
  | case1 => cases h
  | case2 here token next hname rest hrest =>
    cases h
    exact List.forall_mem_singleton.mpr (isName_of_name hname)
  | case3 here token next hname rest hrest ih =>
    obtain ⟨⟨more, last⟩, hmore, hfound⟩ := exists_of_map_eq_ok h
    obtain ⟨rfl, -⟩ := Prod.mk.inj hfound
    exact List.forall_mem_cons.mpr ⟨isName_of_name hname, ih hmore⟩
  | case4 => cases h

theorem isName_of_parameterList {here behind : Cursor} {tokens : List Token}
    (h : parameterList here = .ok (tokens, behind)) :
    ∀ token ∈ tokens, IsName token.text.toList := by
  unfold parameterList at h
  split at h
  · dsimp only at h
    split at h
    · cases h
      nofun
    · exact isName_of_parameters h
  · cases h

/-- The words that a header is written with, behind the word `function`. -/
def words (name : Token) (parameters : List Token) (arrow : Token) : List (List Char) :=
  name.text.toList :: ['('] ::
    ((parameters.map (·.text.toList)).intersperse [','] ++ [[')'], arrow.text.toList])

/-- A header that has been read is read again from its words. -/
theorem read_spaced {here next : Cursor} {tokens : List Token}
    (h : read here = .ok (tokens, next)) :
    ∃ name parameters arrow, tokens = name :: (parameters ++ [arrow]) ∧
      name.kind = .functionName ∧ (∀ token ∈ parameters, token.kind = .parameter) ∧
      arrow.kind = .doubleArrow ∧
      ∀ pos others, ∃ again pos',
        read ⟨spaced (words name parameters arrow ++ others), pos⟩ =
          .ok (again, ⟨spaced others, pos'⟩) ∧
        again.map Token.spelling = tokens.map Token.spelling := by
  obtain ⟨name, behindName, parameters, behindList, arrow, hname, hlist, harrow, rfl⟩ :=
    exists_of_read_eq_ok h
  refine ⟨name, parameters, arrow, rfl, kind_of_name hname, kind_of_parameterList hlist,
    kind_of_arrow harrow, fun pos others ↦ ?_⟩
  have hwords : spaced (words name parameters arrow ++ others) =
      ' ' :: (name.text.toList ++ ' ' :: '(' ::
        (spaced ((parameters.map (·.text.toList)).intersperse [','] ++ [[')']]) ++
          ' ' :: (arrow.text.toList ++ spaced others))) := by
    simp [words, spaced]
  have hparen (rest : List Char) : ∀ c ∈ ('(' :: rest).head?, isBlank c = false := by
    intro c hc
    cases hc
    decide
  have hstart (rest : List Char) :
      (Cursor.mk (' ' :: (name.text.toList ++ rest)) pos).skipBlanks.rest =
        name.text.toList ++ rest := by
    rw [Cursor.skipBlanks_space, Cursor.skipBlanks_of_head (isName_of_name hname).head]
  obtain ⟨name', pos₁, hname', hnameSpelling⟩ := name_of_start .functionName .missingFunctionName
    (hstart _) (isName_of_name hname) (hparen
      (spaced ((parameters.map (·.text.toList)).intersperse [','] ++ [[')']]) ++
        ' ' :: (arrow.text.toList ++ spaced others)))
  obtain ⟨parameters', pos₂, hlist', hlistSpelling⟩ := parameterList_spaced
    (' ' :: (arrow.text.toList ++ spaced others)) pos₁
    (List.forall_mem_map.mpr (isName_of_parameterList hlist))
  obtain ⟨arrow', pos₃, harrow', harrowSpelling⟩ := arrow_spaced others pos₂ harrow
  refine ⟨name' :: (parameters' ++ [arrow']), pos₃, ?_, ?_⟩
  · simp only [read, hwords, hname', hlist', harrow', bind, Except.bind, pure, Except.pure]
  · have hparameters : parameters'.map Token.spelling = parameters.map Token.spelling := by
      rw [hlistSpelling, List.map_map]
      refine List.map_congr_left fun token htoken ↦ ?_
      simp [Token.spelling, kind_of_parameterList hlist token htoken]
    have hfirst : name'.spelling = name.spelling := by
      rw [hnameSpelling, Token.spelling, kind_of_name hname, String.ofList_toList]
    simp only [List.map_cons, List.map_append, List.map_nil, hfirst, hparameters, harrowSpelling]

end Header

namespace Scan

/-- Whether the text, wherever it stands, has tokens with the given kinds and texts. Of the open
prints only the numbers of their open parentheses matter. -/
def Spells (limit : Nat) (opens : List OpenPrint) (afterOperand : Bool) (source : List Char)
    (spellings : List (TokenKind × String)) : Prop :=
  ∀ (others : List OpenPrint) (pos : Pos), others.map (·.depth) = opens.map (·.depth) →
    ∃ found, tokens limit others afterOperand ⟨source, pos⟩ = .ok found ∧
      found.map Token.spelling = spellings

variable {limit : Nat} {opens others : List OpenPrint} {afterOperand : Bool}
  {source behind : List Char} {spellings : List (TokenKind × String)}

/-- At the end of the text there is the end mark, if no print is open. -/
theorem Spells.nil : Spells limit [] afterOperand [] [(.eof, "")] := by
  intro others pos h
  rw [List.map_nil, List.map_eq_nil_iff] at h
  subst h
  refine ⟨[⟨.eof, "", pos⟩], ?_, rfl⟩
  rw [tokens_eq]
  rfl

theorem tokens_blank {c : Char} (hblank : isBlank c = true) (pos : Pos) :
    tokens limit opens afterOperand ⟨c :: source, pos⟩ =
      tokens limit opens afterOperand ⟨source, pos.advance c⟩ := by
  have hskip : (Cursor.mk (c :: source) pos).skipLayout =
      (Cursor.mk source (pos.advance c)).skipLayout := by
    simp [Cursor.skipLayout, Cursor.skip, Cursor.layout_blank hblank]
  rw [tokens_eq, tokens_eq _ _ _ ⟨source, _⟩, hskip]

/-- A blank in front changes nothing. -/
theorem Spells.blank {c : Char} (hblank : isBlank c = true)
    (h : Spells limit opens afterOperand source spellings) :
    Spells limit opens afterOperand (c :: source) spellings := by
  intro others pos hothers
  rw [tokens_blank hblank]
  exact h others _ hothers

/-- A step of the scan where no layout comes first. -/
theorem tokens_of_step {c : Char} {pos : Pos} {found : Step}
    (hlayout : Cursor.layout false (c :: source) = [])
    (hstep : step limit opens afterOperand ⟨c :: source, pos⟩ c source = .ok found) :
    tokens limit opens afterOperand ⟨c :: source, pos⟩ =
      (tokens limit found.opens found.afterOperand found.next).map (found.tokens ++ ·) := by
  have hstart : (Cursor.mk (c :: source) pos).skipLayout = ⟨c :: source, pos⟩ := by
    simp [Cursor.skipLayout, Cursor.skip, hlayout]
  rw [tokens_eq, hstart]
  dsimp only
  rw [hstep]

/-- A lexeme that brings nothing else with it stands in front of a text. -/
theorem Spells.lexeme {c : Char} {more : List Char} {lexeme : Lexeme}
    (hread : Lexeme.read afterOperand c (more ++ behind) = .ok lexeme)
    (hspan : lexeme.span = c :: more)
    (hlayout : Cursor.layout false (c :: (more ++ behind)) = [])
    (hfunction : lexeme.kind ≠ .functionWord) (hprint : lexeme.kind ≠ .printWord)
    (h : Spells limit (track opens lexeme.kind) lexeme.kind.endsOperand behind spellings) :
    Spells limit opens afterOperand (c :: (more ++ behind))
      ((lexeme.kind, String.ofList lexeme.text) :: spellings) := by
  intro others pos hothers
  obtain ⟨found, hfound, hspellings⟩ := h _ (pos.after lexeme.span) (depths_track hothers)
  refine ⟨lexeme.token pos :: found, ?_, by rw [List.map_cons, hspellings]; rfl⟩
  have hnext : (Cursor.mk (c :: (more ++ behind)) pos).skip lexeme.span =
      ⟨behind, pos.after lexeme.span⟩ := by
    simp [Cursor.skip, hspan]
  have hstep : step limit others afterOperand ⟨c :: (more ++ behind), pos⟩ c (more ++ behind) =
      .ok ⟨[lexeme.token pos], track others lexeme.kind, lexeme.kind.endsOperand,
        ⟨behind, pos.after lexeme.span⟩⟩ := by
    simp only [step, hread, hnext]
  rw [tokens_of_step hlayout hstep, hfound]
  rfl

/-- No layout starts at a lexeme. -/
theorem layout_lexeme {c : Char} {more : List Char} {lexeme : Lexeme} (hblank : isBlank c = false)
    (hread : Lexeme.read afterOperand c more = .ok lexeme) (hspan : lexeme.span = c :: more)
    (hbehind : Apart behind) : Cursor.layout false (c :: (more ++ behind)) = [] := by
  rw [Cursor.layout.eq_4, if_neg (by simp [hblank])]
  rintro rest rfl hrest
  -- a slash is a lexeme by itself
  rw [Lexeme.read_slash] at hread
  cases hread
  obtain rfl : [] = more := (List.cons.inj hspan).2
  rw [List.nil_append] at hrest
  exact (hbehind '/' (by rw [hrest]; rfl)).2.2.2.2 rfl

/-- The word `function` with a header behind it stands in front of a text. -/
theorem Spells.header {more : List Char} {lexeme : Lexeme} {header : List (TokenKind × String)}
    {c : Char} {headerText : List Char}
    (hread : Lexeme.read afterOperand c (more ++ (headerText ++ behind)) = .ok lexeme)
    (hspan : lexeme.span = c :: more) (hkind : lexeme.kind = .functionWord)
    (hlayout : Cursor.layout false (c :: (more ++ (headerText ++ behind))) = [])
    (hheader : ∀ pos, ∃ found pos', Header.read ⟨headerText ++ behind, pos⟩ =
      .ok (found, ⟨behind, pos'⟩) ∧ found.map Token.spelling = header)
    (h : Spells limit opens false behind spellings) :
    Spells limit opens afterOperand (c :: (more ++ (headerText ++ behind)))
      ((lexeme.kind, String.ofList lexeme.text) :: (header ++ spellings)) := by
  intro others pos hothers
  obtain ⟨found, pos', hfound, hfoundSpellings⟩ := hheader (pos.after lexeme.span)
  obtain ⟨rest, hrest, hrestSpellings⟩ := h others pos' hothers
  refine ⟨lexeme.token pos :: (found ++ rest), ?_, ?_⟩
  · have hnext : (Cursor.mk (c :: (more ++ (headerText ++ behind))) pos).skip lexeme.span =
        ⟨headerText ++ behind, pos.after lexeme.span⟩ := by
      simp [Cursor.skip, hspan]
    have hstep : step limit others afterOperand ⟨c :: (more ++ (headerText ++ behind)), pos⟩ c
        (more ++ (headerText ++ behind)) =
          .ok ⟨lexeme.token pos :: found, others, false, ⟨behind, pos'⟩⟩ := by
      simp only [step, hread, hkind, hnext, hfound]
    rw [tokens_of_step hlayout hstep, hrest]
    rfl
  · rw [List.map_cons, List.map_append, hfoundSpellings, hrestSpellings]
    rfl

/-- The word `print` with an opening parenthesis behind it stands in front of a text. -/
theorem Spells.print {more : List Char} {lexeme : Lexeme} {c : Char} {paren : OpenPrint}
    (hread : Lexeme.read afterOperand c (more ++ ' ' :: '(' :: behind) = .ok lexeme)
    (hspan : lexeme.span = c :: more) (hkind : lexeme.kind = .printWord)
    (hlayout : Cursor.layout false (c :: (more ++ ' ' :: '(' :: behind)) = [])
    (hlimit : opens.length < limit) (hparen : paren.depth = 1)
    (h : Spells limit (paren :: opens) false behind spellings) :
    Spells limit opens afterOperand (c :: (more ++ ' ' :: '(' :: behind))
      ((lexeme.kind, String.ofList lexeme.text) :: (.leftParen, "(") :: spellings) := by
  intro others pos hothers
  have hlength : others.length = opens.length := by simpa using congrArg List.length hothers
  have hprint : printParen ⟨' ' :: '(' :: behind, pos.after lexeme.span⟩ =
      .ok (⟨.leftParen, "(", (pos.after lexeme.span).advance ' '⟩,
        ⟨behind, ((pos.after lexeme.span).advance ' ').after ['(']⟩) := by
    have hstart (pos : Pos) : (Cursor.mk (' ' :: '(' :: behind) pos).skipBlanks =
        ⟨'(' :: behind, pos.advance ' '⟩ := by
      rw [Cursor.skipBlanks_space, Cursor.skipBlanks_of_head fun c hc ↦ by cases hc; decide]
    unfold printParen
    dsimp only
    rw [hstart]
    rfl
  obtain ⟨rest, hrest, hrestSpellings⟩ := h
    (⟨(pos.after lexeme.span).advance ' ', 1⟩ :: others)
    (((pos.after lexeme.span).advance ' ').after ['(']) (by simp [hothers, hparen])
  refine ⟨lexeme.token pos :: ⟨.leftParen, "(", (pos.after lexeme.span).advance ' '⟩ :: rest,
    ?_, ?_⟩
  · have hnext : (Cursor.mk (c :: (more ++ ' ' :: '(' :: behind)) pos).skip lexeme.span =
        ⟨' ' :: '(' :: behind, pos.after lexeme.span⟩ := by
      simp [Cursor.skip, hspan]
    have hstep : step limit others afterOperand ⟨c :: (more ++ ' ' :: '(' :: behind), pos⟩ c
        (more ++ ' ' :: '(' :: behind) =
          .ok ⟨[lexeme.token pos, ⟨.leftParen, "(", (pos.after lexeme.span).advance ' '⟩],
            ⟨(pos.after lexeme.span).advance ' ', 1⟩ :: others, false,
            ⟨behind, ((pos.after lexeme.span).advance ' ').after ['(']⟩⟩ := by
      simp only [step, hread, hkind, hnext, hprint, hlength, Nat.not_le.mpr hlimit, if_false]
    rw [tokens_of_step hlayout hstep, hrest]
    rfl
  · rw [List.map_cons, List.map_cons, hrestSpellings]
    rfl

end Scan

end Reckoner
