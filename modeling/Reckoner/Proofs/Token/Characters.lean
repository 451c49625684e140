import Reckoner.Proofs.Token.HeaderGrammar

/-!
Scanning character by character. Here a scan has a cursor that takes one character at a time and
can be put back, and it fails if a character is taken where none is left; its loops ask for the
next character until one does not fit. Each of its routines does what the readers of whole pieces
do, so none of them ever takes a character that is not there.
-/

set_option autoImplicit false
set_option relaxedAutoImplicit false

namespace Reckoner

open Text

namespace ByCharacter

/-- Why a scan stops. -/
inductive Halt where
  | fault (fault : Fault LexError)
  /-- A character was to be taken at the end of the text. -/
  | pastEnd
  /-- A loop has used up the rounds it was given. -/
  | endless
  deriving DecidableEq

/-- Where a scan is, and the tokens that it has found. -/
structure State where
  here : Cursor
  tokens : List Token

/-- A routine of the scan. -/
abbrev Scanner := StateT State (Except Halt)

/-! ### The routines -/

/-- Stops with an error. -/
def fail {α : Type} (cause : LexError.Cause) (pos : Pos) : Scanner α :=
  throw (.fault (.error ⟨cause, pos⟩))

/-- The next character, which stays where it is. -/
def peek? : Scanner (Option Char) := do
  return (← get).here.rest.head?

/-- Takes the next character. -/
def next : Scanner Char := do
  let state ← get
  match state.here.rest with
  | [] => throw .pastEnd
  | c :: _ =>
    set { state with here := state.here.skip [c] }
    return c

/-- Puts the cursor back where it was. -/
def restore (here : Cursor) : Scanner Unit :=
  modify fun state ↦ { state with here }

/-- Adds a token to those that have been found. -/
def push (token : Token) : Scanner Unit :=
  modify fun state ↦ { state with tokens := state.tokens ++ [token] }

/-- Whether the piece of text comes next. -/
def startsWith (piece : List Char) : Scanner Bool := do
  return piece.isPrefixOf (← get).here.rest

/-- Where the cursor is. -/
def position : Scanner Pos := do
  return (← get).here.pos

/-- Enough rounds for a loop that takes a character in each of them. -/
def rounds : Scanner Nat := do
  return (← get).here.rest.length + 1

/-- Takes the next character if it is the given one, and says whether it was. -/
def accept (c : Char) : Scanner Bool := do
  if (← peek?) = some c then
    let _ ← next
    return true
  else
    return false

/-- Takes the next character, which must be the given one. -/
def expect (c : Char) (cause : LexError.Cause) : Scanner Unit := do
  if ← accept c then return ()
  else
    fail cause (← position)

def runWithin (fits : Char → Bool) : Nat → Scanner (List Char)
  | 0 => throw .endless
  | rounds + 1 => do
    match ← peek? with
    | none => return []
    | some c =>
      if fits c then
        let c ← next
        let more ← runWithin fits rounds
        return c :: more
      else
        return []

/-- Takes characters as long as they fit. -/
def run (fits : Char → Bool) : Scanner (List Char) := do
  runWithin fits (← rounds)

def skipIgnoredWithin : Nat → Scanner Unit
  | 0 => throw .endless
  | rounds + 1 => do
    let _ ← run isBlank
    if ← startsWith ['/', '/'] then
      let _ ← run (· ≠ '\r')
      skipIgnoredWithin rounds
    else
      return ()

/-- Passes over blanks and comments. -/
def skipIgnored : Scanner Unit := do
  skipIgnoredWithin (← rounds)

/-- Reads a word. -/
def lexWord : Scanner Token := do
  let pos ← position
  let word := String.ofList (← run isWordChar)
  return ⟨.ofWord word, word, pos⟩

/-- Reads a number behind its sign. -/
def lexUnsigned (pos : Pos) (sign : List Char) : Scanner Token := do
  let whole ← run isDecimal
  if ← accept '.' then
    let fraction ← run isDecimal
    return ⟨.number, String.ofList (sign ++ whole ++ '.' :: fraction), pos⟩
  else
    return ⟨.number, String.ofList (sign ++ whole), pos⟩

/-- Reads a number, with its sign if it has one. -/
def lexNumeral : Scanner Token := do
  let pos ← position
  if ← accept '-' then lexUnsigned pos ['-'] else lexUnsigned pos []

/-- Reads a string with its quotes. -/
def lexString : Scanner Token := do
  let pos ← position
  let _ ← next
  let body ← run (· ≠ '"')
  if (← peek?).isNone then fail .unterminatedString pos
  else
    let _ ← next
    return ⟨.string, String.ofList body, pos⟩

/-- Whether the last of the tokens can end an operand. -/
def endsOperand (tokens : List Token) : Bool :=
  tokens.getLast?.any (·.kind.endsOperand)

/-- Whether a number starts behind a minus sign that has been taken. -/
def startsNegative : Scanner Bool := do
  match ← peek? with
  | none => return false
  | some c => return isDecimal c && !endsOperand (← get).tokens

/-- Reads one token. Words, numbers and strings are read from their first character on, which is
put back. -/
def lexAny : Scanner Token := do
  let saved := (← get).here
  let c ← next
  if isLetter c then
    restore saved
    lexWord
  else if isDecimal c then
    restore saved
    lexNumeral
  else if c = '"' then
    restore saved
    lexString
  else
    match TokenKind.ofPunctuation? c with
    | some kind => return ⟨kind, String.ofList [c], saved.pos⟩
    | none =>
      if c = '-' ∧ (← startsNegative) then
        restore saved
        lexNumeral
      else
        match (← peek?).bind (TokenKind.ofPair? c) with
        | some kind =>
          let d ← next
          return ⟨kind, String.ofList [c, d], saved.pos⟩
        | none =>
          match TokenKind.ofOperator? c with
          | some kind => return ⟨kind, String.ofList [c], saved.pos⟩
          | none => fail (.invalidCharacter c) saved.pos

/-- Reads a name of a header, behind blanks. -/
def lexName (kind : TokenKind) (cause : LexError.Cause) : Scanner Unit := do
  let _ ← run isBlank
  let pos ← position
  let name ← run isWordChar
  if name.head?.any isLetter then push ⟨kind, String.ofList name, pos⟩
  else fail cause pos

def lexParametersWithin : Nat → Scanner Unit
  | 0 => throw .endless
  | rounds + 1 => do
    lexName .parameter .missingParameterName
    let _ ← run isBlank
    if ← accept ')' then return ()
    else
      expect ',' .missingParameterEnd
      lexParametersWithin rounds

/-- Reads the parameters of a header with the parentheses around them. -/
def lexParameterList : Scanner Unit := do
  expect '(' .missingFunctionParen
  let _ ← run isBlank
  if ← accept ')' then return () else lexParametersWithin (← rounds)

/-- Reads the arrow of a header. -/
def lexArrow : Scanner Unit := do
  let _ ← run isBlank
  let pos ← position
  if ← startsWith ['=', '>'] then
    let _ ← next
    let _ ← next
    push ⟨.doubleArrow, "=>", pos⟩
  else
    let word ← run isWordChar
    if word = "flinq".toList then push ⟨.doubleArrow, "flinq", pos⟩
    else fail .missingFunctionArrow pos

/-- Reads a header behind the word `function`. -/
def lexHeader : Scanner Unit := do
  lexName .functionName .missingFunctionName
  let _ ← run isBlank
  lexParameterList
  lexArrow

/-- Reads the parenthesis that opens a print, and gives its position. -/
def openPrint : Scanner Pos := do
  let _ ← run isBlank
  let pos ← position
  expect '(' .missingPrintParen
  push ⟨.leftParen, "(", pos⟩
  return pos

/-! ### What the routines do -/

section Equations

variable {α β : Type} {here : Cursor} {tokens : List Token} {c : Char} {rest : List Char}

theorem run_peek? (state : State) : peek?.run state = .ok (state.here.rest.head?, state) :=
  rfl

theorem run_position (state : State) : position.run state = .ok (state.here.pos, state) :=
  rfl

theorem run_rounds (state : State) : rounds.run state = .ok (state.here.rest.length + 1, state) :=
  rfl

theorem run_startsWith (piece : List Char) (state : State) :
    (startsWith piece).run state = .ok (piece.isPrefixOf state.here.rest, state) :=
  rfl

theorem run_restore (state : State) :
    (restore here).run state = .ok ((), ⟨here, state.tokens⟩) :=
  rfl

theorem run_push (token : Token) (state : State) :
    (push token).run state = .ok ((), ⟨state.here, state.tokens ++ [token]⟩) :=
  rfl

theorem run_fail (cause : LexError.Cause) (pos : Pos) (state : State) :
    (fail cause pos : Scanner α).run state = .error (.fault (.error ⟨cause, pos⟩)) :=
  rfl

/-- A character is taken where there is one. -/
theorem run_next (hrest : here.rest = c :: rest) :
    next.run ⟨here, tokens⟩ = .ok (c, ⟨here.skip [c], tokens⟩) := by
  rw [next, run_bind_of_ok (run_get _)]
  simp only [hrest]
  rfl

theorem run_accept_of_eq (hrest : here.rest = c :: rest) :
    (accept c).run ⟨here, tokens⟩ = .ok (true, ⟨here.skip [c], tokens⟩) := by
  rw [accept, run_bind_of_ok (run_peek? _), if_pos (by simp [hrest]),
    run_bind_of_ok (run_next hrest), run_pure]

theorem run_accept_of_ne (hrest : here.rest.head? ≠ some c) :
    (accept c).run ⟨here, tokens⟩ = .ok (false, ⟨here, tokens⟩) := by
  rw [accept, run_bind_of_ok (run_peek? _), if_neg hrest, run_pure]

theorem run_expect_of_eq {cause : LexError.Cause} (hrest : here.rest = c :: rest) :
    (expect c cause).run ⟨here, tokens⟩ = .ok ((), ⟨here.skip [c], tokens⟩) := by
  rw [expect, run_bind_of_ok (run_accept_of_eq hrest), if_pos rfl, run_pure]

theorem run_expect_of_ne {cause : LexError.Cause} (hrest : here.rest.head? ≠ some c) :
    (expect c cause).run ⟨here, tokens⟩ = .error (.fault (.error ⟨cause, here.pos⟩)) := by
  rw [expect, run_bind_of_ok (run_accept_of_ne hrest), if_neg Bool.false_ne_true,
    run_bind_of_ok (run_position _), run_fail]

theorem run_runWithin {fits : Char → Bool} {rounds : Nat} (hrounds : here.rest.length < rounds) :
    (runWithin fits rounds).run ⟨here, tokens⟩ =
      .ok (here.rest.takeWhile fits, ⟨here.skip (here.rest.takeWhile fits), tokens⟩) := by
  induction rounds generalizing here with
  | zero => exact absurd hrounds (Nat.not_lt_zero _)
  | succ rounds ih =>
    rw [runWithin, run_bind_of_ok (run_peek? _)]
    cases hrest : here.rest with
    | nil => rfl
    | cons c rest =>
      by_cases hc : fits c = true
      · have hbehind : (here.skip [c]).rest = rest := Cursor.rest_skip hrest
        have hmore : (here.skip [c]).rest.length < rounds := by
          rw [hrest, List.length_cons] at hrounds
          rw [hbehind]
          omega
        simp only [List.head?_cons, hc, if_true]
        rw [run_bind_of_ok (run_next hrest), run_bind_of_ok (ih hmore), run_pure, hbehind,
          List.takeWhile_cons_of_pos hc, ← Cursor.skip_append]
        rfl
      · simp only [List.head?_cons, hc, Bool.false_eq_true, if_false]
        rw [List.takeWhile_cons_of_neg hc, run_pure]
        rfl

/-- The loop takes the longest piece that fits, and ends. -/
theorem run_run (fits : Char → Bool) :
    (run fits).run ⟨here, tokens⟩ =
      .ok (here.rest.takeWhile fits, ⟨here.skip (here.rest.takeWhile fits), tokens⟩) := by
  rw [run, run_bind_of_ok (run_rounds _)]
  exact run_runWithin (Nat.lt_succ_self _)

/-- A comment goes on up to the end of its line, and layout goes on there. -/
theorem layout_comment (text : List Char) :
    Cursor.layout true text =
      text.takeWhile (· ≠ '\r') ++ Cursor.layout false (text.dropWhile (· ≠ '\r')) := by
  induction text with
  | nil => rfl
  | cons c text ih =>
    by_cases hc : c = '\r'
    · subst hc
      have hreturn : isBlank '\r' = true := by decide
      simp [Cursor.layout, Cursor.layout_blank hreturn]
    · simp [Cursor.layout, hc, ih]

theorem layout_blanks (text : List Char) :
    Cursor.layout false text =
      text.takeWhile isBlank ++ Cursor.layout false (text.dropWhile isBlank) := by
  induction text with
  | nil => rfl
  | cons c text ih =>
    by_cases hc : isBlank c = true
    · rw [Cursor.layout_blank hc, List.takeWhile_cons_of_pos hc, List.dropWhile_cons_of_pos hc, ih,
        List.cons_append, ← ih]
    · rw [List.takeWhile_cons_of_neg hc, List.dropWhile_cons_of_neg hc, List.nil_append]

theorem run_skipIgnoredWithin {rounds : Nat} (hrounds : here.rest.length < rounds) :
    (skipIgnoredWithin rounds).run ⟨here, tokens⟩ = .ok ((), ⟨here.skipLayout, tokens⟩) := by
  induction rounds generalizing here with
  | zero => exact absurd hrounds (Nat.not_lt_zero _)
  | succ rounds ih =>
    have hblanks := here.passes_skipBlanks.rest_eq
    have hbehind : here.skipBlanks.rest = here.rest.dropWhile isBlank :=
      Cursor.rest_skip List.takeWhile_append_dropWhile.symm
    have hrest : here.skipLayout =
        here.skipBlanks.skip (Cursor.layout false here.skipBlanks.rest) := by
      rw [hbehind, Cursor.skipBlanks, ← Cursor.skip_append, ← layout_blanks, Cursor.skipLayout]
    rw [skipIgnoredWithin, run_bind_of_ok (run_run isBlank), run_bind_of_ok (run_startsWith ..),
      ← Cursor.skipBlanks, hrest]
    have hshort : here.skipBlanks.rest.length < rounds + 1 :=
      Nat.lt_of_le_of_lt (Cursor.length_skipBlanks here) hrounds
    have hnonblank : ∀ c ∈ here.skipBlanks.rest.head?, isBlank c = false := by
      rw [hbehind]
      exact Lexeme.head_of_dropWhile
    generalize here.skipBlanks = start at hshort hnonblank
    cases hslashes : ['/', '/'].isPrefixOf start.rest with
    | false =>
      have hnone : Cursor.layout false start.rest = [] := by
        cases hstart : start.rest with
        | nil => rfl
        | cons c rest =>
          rw [hstart] at hnonblank hslashes
          refine Cursor.layout_eq_nil_iff.mpr ⟨hnonblank c rfl, fun hc hhead ↦ ?_⟩
          obtain ⟨more, rfl⟩ := List.head?_eq_some_iff.mp hhead
          simp [hc] at hslashes
      rw [if_neg Bool.false_ne_true, run_pure, hnone]
      rfl
    | true =>
      obtain ⟨more, hmore⟩ := List.isPrefixOf_iff_prefix.mp hslashes
      have hline : start.rest.takeWhile (· ≠ '\r') =
          '/' :: '/' :: more.takeWhile (· ≠ '\r') := by
        simp [← hmore]
      have hlayout : Cursor.layout false start.rest =
          start.rest.takeWhile (· ≠ '\r') ++
            Cursor.layout false (more.dropWhile (· ≠ '\r')) := by
        rw [hline, ← hmore]
        simp [Cursor.layout, layout_comment]
      have hnext : (start.skip (start.rest.takeWhile (· ≠ '\r'))).rest =
          more.dropWhile (· ≠ '\r') := by
        refine Cursor.rest_skip ?_
        rw [hline, ← hmore]
        simp
      have hless : (start.skip (start.rest.takeWhile (· ≠ '\r'))).rest.length < rounds := by
        have hlength := (List.dropWhile_suffix (· ≠ '\r') (l := more)).length_le
        rw [← hmore] at hshort
        rw [hnext]
        simp only [List.length_append, List.length_cons] at hshort
        omega
      rw [if_pos rfl, run_bind_of_ok (run_run _), ih hless, hlayout, Cursor.skip_append, ← hnext]
      rfl

/-- The loop passes over the layout, and ends. -/
theorem run_skipIgnored :
    skipIgnored.run ⟨here, tokens⟩ = .ok ((), ⟨here.skipLayout, tokens⟩) := by
  rw [skipIgnored, run_bind_of_ok (run_rounds _)]
  exact run_skipIgnoredWithin (Nat.lt_succ_self _)

/-! ### Lexemes -/

theorem run_lexWord :
    lexWord.run ⟨here, tokens⟩ =
      .ok ((Lexeme.plain (.ofWord (String.ofList (Lexeme.word here.rest)))
        (Lexeme.word here.rest)).token here.pos, ⟨here.skip (Lexeme.word here.rest), tokens⟩) := by
  rw [lexWord, run_bind_of_ok (run_position _), run_bind_of_ok (run_run _), run_pure]
  rfl

theorem run_lexUnsigned (pos : Pos) (sign : List Char) :
    (lexUnsigned pos sign).run ⟨here, tokens⟩ =
      .ok (⟨.number, String.ofList (sign ++ Lexeme.numeral here.rest), pos⟩,
        ⟨here.skip (Lexeme.numeral here.rest), tokens⟩) := by
  have hbehind : (here.skip (here.rest.takeWhile isDecimal)).rest =
      here.rest.dropWhile isDecimal :=
    Cursor.rest_skip List.takeWhile_append_dropWhile.symm
  rw [lexUnsigned, run_bind_of_ok (run_run _), Lexeme.numeral]
  split
  · next rest hpoint =>
    have hrest := hbehind.trans hpoint
    have hfraction : ((here.skip (here.rest.takeWhile isDecimal)).skip ['.']).rest = rest :=
      Cursor.rest_skip hrest
    rw [run_bind_of_ok (run_accept_of_eq hrest), if_pos rfl, run_bind_of_ok (run_run _), run_pure,
      hfraction, ← Cursor.skip_append, ← Cursor.skip_append, List.append_assoc]
    simp
  · next hpoint =>
    have hrest : (here.skip (here.rest.takeWhile isDecimal)).rest.head? ≠ some '.' := by
      rw [hbehind]
      intro hhead
      obtain ⟨rest, hrest⟩ := List.head?_eq_some_iff.mp hhead
      exact hpoint rest hrest
    rw [run_bind_of_ok (run_accept_of_ne hrest), if_neg Bool.false_ne_true, run_pure]

/-- A number without a sign. -/
theorem run_lexNumeral (hrest : here.rest.head? ≠ some '-') :
    lexNumeral.run ⟨here, tokens⟩ =
      .ok ((Lexeme.plain .number (Lexeme.numeral here.rest)).token here.pos,
        ⟨here.skip (Lexeme.numeral here.rest), tokens⟩) := by
  rw [lexNumeral, run_bind_of_ok (run_position _), run_bind_of_ok (run_accept_of_ne hrest),
    if_neg Bool.false_ne_true, run_lexUnsigned]
  rfl

/-- A number with a sign. -/
theorem run_lexNumeral_negative (hrest : here.rest = '-' :: rest) :
    lexNumeral.run ⟨here, tokens⟩ =
      .ok ((Lexeme.plain .number ('-' :: Lexeme.numeral rest)).token here.pos,
        ⟨here.skip ('-' :: Lexeme.numeral rest), tokens⟩) := by
  have hbehind : (here.skip ['-']).rest = rest := Cursor.rest_skip hrest
  rw [lexNumeral, run_bind_of_ok (run_position _), run_bind_of_ok (run_accept_of_eq hrest),
    if_pos rfl, run_lexUnsigned, hbehind, ← Cursor.skip_append]
  rfl

/-- A string is read if its closing quote is there. -/
theorem run_lexString (hrest : here.rest = '"' :: rest) :
    lexString.run ⟨here, tokens⟩ =
      match Lexeme.string? rest with
      | some lexeme => .ok (lexeme.token here.pos, ⟨here.skip lexeme.span, tokens⟩)
      | none => .error (.fault (.error ⟨.unterminatedString, here.pos⟩)) := by
  have hbehind : (here.skip ['"']).rest = rest := Cursor.rest_skip hrest
  rw [lexString, run_bind_of_ok (run_position _), run_bind_of_ok (run_next hrest),
    run_bind_of_ok (run_run _), run_bind_of_ok (run_peek? _), hbehind]
  by_cases hquote : '"' ∈ rest
  · obtain ⟨body, behind, rfl, hbody⟩ := List.eq_append_cons_of_mem hquote
    have hclosing : ((here.skip ['"']).skip body).rest = '"' :: behind := Cursor.rest_skip hbehind
    rw [Lexeme.takeWhile_ne_quote hbody, Lexeme.string?_quoted hbody]
    simp only [hclosing, List.head?_cons, Option.isNone_some, Bool.false_eq_true, if_false]
    rw [run_bind_of_ok (run_next hclosing), run_pure, ← Cursor.skip_append, ← Cursor.skip_append]
    rfl
  · have hall : rest.takeWhile (· ≠ '"') = rest := by
      refine List.takeWhile_eq_self_iff.mpr fun c hc ↦ decide_eq_true ?_
      rintro rfl
      exact hquote hc
    have hnone : ((here.skip ['"']).skip rest).rest = [] :=
      Cursor.rest_skip (hbehind.trans (List.append_nil rest).symm)
    rw [hall, Lexeme.string?_of_unquoted hquote]
    simp only [hnone, List.head?_nil, Option.isNone_none, if_true]
    rw [run_fail]

theorem run_startsNegative :
    startsNegative.run ⟨here, tokens⟩ =
      .ok (Lexeme.startsNumeral here.rest && !endsOperand tokens, ⟨here, tokens⟩) := by
  rw [startsNegative, run_bind_of_ok (run_peek? _)]
  cases hrest : here.rest with
  | nil => rfl
  | cons c rest => rfl

/-- One token is read as a lexeme. -/
theorem run_lexAny (hrest : here.rest = c :: rest) :
    lexAny.run ⟨here, tokens⟩ =
      match Lexeme.read (endsOperand tokens) c rest with
      | .ok lexeme => .ok (lexeme.token here.pos, ⟨here.skip lexeme.span, tokens⟩)
      | .error cause => .error (.fault (.error ⟨cause, here.pos⟩)) := by
  have hbehind : (here.skip [c]).rest = rest := Cursor.rest_skip hrest
  rw [lexAny, run_bind_of_ok (run_get _), run_bind_of_ok (run_next hrest), Lexeme.read]
  by_cases hletter : isLetter c = true
  · rw [if_pos hletter, if_pos hletter, run_bind_of_ok (run_restore _), run_lexWord, hrest]
    rfl
  rw [if_neg hletter, if_neg hletter]
  by_cases hdecimal : isDecimal c = true
  · have hsign : here.rest.head? ≠ some '-' := by
      rw [hrest]
      rintro ⟨⟩
      exact absurd hdecimal (by decide)
    rw [if_pos hdecimal, if_pos hdecimal, run_bind_of_ok (run_restore _), run_lexNumeral hsign,
      hrest]
    rfl
  rw [if_neg hdecimal, if_neg hdecimal]
  by_cases hquote : c = '"'
  · subst hquote
    rw [if_pos rfl, if_pos rfl, run_bind_of_ok (run_restore _), run_lexString hrest]
    cases Lexeme.string? rest <;> rfl
  rw [if_neg hquote, if_neg hquote]
  cases TokenKind.ofPunctuation? c with
  | some kind => rfl
  | none =>
    dsimp only
    rw [run_bind_of_ok run_startsNegative, hbehind]
    by_cases hsign : c = '-' ∧ Lexeme.startsNumeral rest = true ∧ ¬ endsOperand tokens = true
    · obtain ⟨rfl, hstarts, hafter⟩ := hsign
      rw [if_pos ⟨rfl, by simp [hstarts, hafter]⟩, if_pos ⟨rfl, hstarts, hafter⟩,
        run_bind_of_ok (run_restore _), run_lexNumeral_negative hrest]
      rfl
    · rw [if_neg fun h ↦ hsign ⟨h.1, by simpa using h.2⟩, if_neg hsign,
        run_bind_of_ok (run_peek? _), hbehind, Lexeme.symbol?]
      have hoperator : ((match TokenKind.ofOperator? c with
          | some kind => pure ⟨kind, String.ofList [c], here.pos⟩
          | none => fail (.invalidCharacter c) here.pos : Scanner Token)).run
            ⟨here.skip [c], tokens⟩ =
          match (match (TokenKind.ofOperator? c).map fun kind ↦ Lexeme.plain kind [c] with
            | some lexeme => .ok lexeme
            | none => .error (.invalidCharacter c) : Except LexError.Cause Lexeme) with
          | .ok lexeme => .ok (lexeme.token here.pos, ⟨here.skip lexeme.span, tokens⟩)
          | .error cause => .error (.fault (.error ⟨cause, here.pos⟩)) := by
        cases TokenKind.ofOperator? c <;> rfl
      cases rest with
      | nil => exact hoperator
      | cons d more =>
        simp only [List.head?_cons, Option.bind_some]
        cases TokenKind.ofPair? c d with
        | none => exact hoperator
        | some kind =>
          dsimp only [Option.map_some]
          rw [run_bind_of_ok (run_next hbehind), run_pure, ← Cursor.skip_append]
          rfl

/-! ### Headers and prints -/

/-- A word is a name if it starts with a letter. -/
theorem name?_eq : Header.name? here =
    if (Lexeme.word here.rest).head?.any isLetter then some (Lexeme.word here.rest) else none := by
  cases hrest : here.rest with
  | nil => simp [Header.name?, hrest, Lexeme.word]
  | cons c rest =>
    by_cases hword : isWordChar c = true
    · simp [Header.name?, hrest, Lexeme.word, hword]
    · have hc : isLetter c = false := by
        rw [← Bool.not_eq_true]
        exact fun h ↦ hword (isWordChar_of_isLetter c h)
      simp [Header.name?, hrest, Lexeme.word, hword, hc]

/-- A name with the blanks around it. -/
theorem run_lexName (kind : TokenKind) (cause : LexError.Cause) (next : Scanner β) :
    (do lexName kind cause; let _ ← run isBlank; next).run ⟨here, tokens⟩ =
      match Header.name kind cause here with
      | .ok (token, behind) => next.run ⟨behind, tokens ++ [token]⟩
      | .error error => .error (.fault (.error error)) := by
  have hword : (lexName kind cause).run ⟨here, tokens⟩ =
      (if (Lexeme.word here.skipBlanks.rest).head?.any isLetter then
        push ⟨kind, String.ofList (Lexeme.word here.skipBlanks.rest), here.skipBlanks.pos⟩
      else fail cause here.skipBlanks.pos).run
        ⟨here.skipBlanks.skip (Lexeme.word here.skipBlanks.rest), tokens⟩ := by
    rw [lexName, run_bind_of_ok (run_run _), run_bind_of_ok (run_position _),
      run_bind_of_ok (run_run _)]
    rfl
  rw [Header.name, name?_eq]
  by_cases hname : (Lexeme.word here.skipBlanks.rest).head?.any isLetter = true
  · rw [if_pos hname] at hword ⊢
    rw [run_bind_of_ok (hword.trans (run_push _ _)), run_bind_of_ok (run_run _)]
    rfl
  · rw [if_neg hname] at hword ⊢
    exact run_bind_of_error (hword.trans (run_fail _ _ _)) _

theorem run_lexParametersWithin {rounds : Nat} (hrounds : here.rest.length < rounds) :
    (lexParametersWithin rounds).run ⟨here, tokens⟩ =
      match Header.parameters here with
      | .ok (found, behind) => .ok ((), ⟨behind, tokens ++ found⟩)
      | .error error => .error (.fault (.error error)) := by
  induction rounds generalizing here tokens with
  | zero => exact absurd hrounds (Nat.not_lt_zero _)
  | succ rounds ih =>
    rw [lexParametersWithin, run_lexName]
    cases hname : Header.name .parameter .missingParameterName here with
    | error error => rw [Header.parameters_eq, hname]
    | ok named =>
      obtain ⟨token, behind⟩ := named
      have hlength := Header.length_name hname
      dsimp only
      by_cases hparen : behind.rest.head? = some ')'
      · obtain ⟨rest, hrest⟩ := List.head?_eq_some_iff.mp hparen
        have hend : Header.parameters here = .ok ([token], behind.skip [')']) := by
          rw [Header.parameters_eq, hname]
          simp only [hrest]
        rw [run_bind_of_ok (run_accept_of_eq hrest), if_pos rfl, run_pure, hend]
      rw [run_bind_of_ok (run_accept_of_ne hparen), if_neg Bool.false_ne_true]
      by_cases hcomma : behind.rest.head? = some ','
      · obtain ⟨rest, hrest⟩ := List.head?_eq_some_iff.mp hcomma
        have hmore : (behind.skip [',']).rest.length < rounds := by
          rw [Cursor.length_skip]
          omega
        have hothers : Header.parameters here = (Header.parameters (behind.skip [','])).map
            fun found ↦ (token :: found.1, found.2) := by
          rw [Header.parameters_eq, hname]
          simp only [hrest]
        rw [run_bind_of_ok (run_expect_of_eq hrest), ih hmore, hothers]
        cases Header.parameters (behind.skip [',']) with
        | error error => rfl
        | ok found => simp [Except.map]
      · have hnone : Header.parameters here = .error ⟨.missingParameterEnd, behind.pos⟩ := by
          rw [Header.parameters_eq, hname]
          dsimp only
          split
          · next hrest => exact absurd (congrArg List.head? hrest) hparen
          · next hrest => exact absurd (congrArg List.head? hrest) hcomma
          · rfl
        rw [run_bind_of_error (run_expect_of_ne hcomma), hnone]

/-- The parameters with the parentheses around them. -/
theorem run_lexParameterList :
    lexParameterList.run ⟨here, tokens⟩ =
      match Header.parameterList here with
      | .ok (found, behind) => .ok ((), ⟨behind, tokens ++ found⟩)
      | .error error => .error (.fault (.error error)) := by
  rw [lexParameterList]
  by_cases hopening : here.rest.head? = some '('
  · obtain ⟨rest, hrest⟩ := List.head?_eq_some_iff.mp hopening
    rw [run_bind_of_ok (run_expect_of_eq hrest), run_bind_of_ok (run_run _), ← Cursor.skipBlanks]
    by_cases hclosing : (here.skip ['(']).skipBlanks.rest.head? = some ')'
    · obtain ⟨more, hmore⟩ := List.head?_eq_some_iff.mp hclosing
      have hnone : Header.parameterList here =
          .ok ([], (here.skip ['(']).skipBlanks.skip [')']) := by
        rw [Header.parameterList]
        simp only [hrest, hmore]
      rw [run_bind_of_ok (run_accept_of_eq hmore), if_pos rfl, run_pure, hnone]
      simp
    · have hsome : Header.parameterList here =
          Header.parameters (here.skip ['(']).skipBlanks := by
        rw [Header.parameterList]
        simp only [hrest]
        split
        · next hhead => exact absurd (congrArg List.head? hhead) hclosing
        · rfl
      rw [run_bind_of_ok (run_accept_of_ne hclosing), if_neg Bool.false_ne_true,
        run_bind_of_ok (run_rounds _), hsome]
      exact run_lexParametersWithin (Nat.lt_succ_self _)
  · have hnone : Header.parameterList here = .error ⟨.missingFunctionParen, here.pos⟩ := by
      rw [Header.parameterList]
      split
      · next hrest => exact absurd (congrArg List.head? hrest) hopening
      · rfl
    rw [run_bind_of_error (run_expect_of_ne hopening), hnone]

theorem run_lexArrow :
    lexArrow.run ⟨here, tokens⟩ =
      match Header.arrow here with
      | .ok (token, behind) => .ok ((), ⟨behind, tokens ++ [token]⟩)
      | .error error => .error (.fault (.error error)) := by
  rw [lexArrow, run_bind_of_ok (run_run _), ← Cursor.skipBlanks, run_bind_of_ok (run_position _),
    run_bind_of_ok (run_startsWith _ _)]
  by_cases hsign : ∃ more, here.skipBlanks.rest = '=' :: '>' :: more
  · obtain ⟨more, hmore⟩ := hsign
    have hbehind : (here.skipBlanks.skip ['=']).rest = '>' :: more := Cursor.rest_skip hmore
    rw [Header.arrow_of_sign hmore, if_pos (by simp [hmore]), run_bind_of_ok (run_next hmore),
      run_bind_of_ok (run_next hbehind), run_push, ← Cursor.skip_append]
    rfl
  · have hstarts : ['=', '>'].isPrefixOf here.skipBlanks.rest = false := by
      rw [← Bool.not_eq_true, List.isPrefixOf_iff_prefix]
      rintro ⟨more, hmore⟩
      exact hsign ⟨more, hmore.symm⟩
    rw [Header.arrow_of_no_sign (not_exists.mp hsign), if_neg (by rw [hstarts]; decide),
      run_bind_of_ok (run_run _), ← Lexeme.word]
    split
    · next hword => rfl
    · rfl

/-- A header is read as a whole. -/
theorem run_lexHeader :
    lexHeader.run ⟨here, tokens⟩ =
      match Header.read here with
      | .ok (header, behind) => .ok ((), ⟨behind, tokens ++ header⟩)
      | .error error => .error (.fault (.error error)) := by
  rw [lexHeader, run_lexName]
  cases hname : Header.name .functionName .missingFunctionName here with
  | error error => simp [Header.read, hname, bind, Except.bind]
  | ok named =>
    obtain ⟨name, behindName⟩ := named
    have hlist : lexParameterList.run ⟨behindName, tokens ++ [name]⟩ = _ := run_lexParameterList
    dsimp only
    cases hread : Header.parameterList behindName with
    | error error =>
      rw [hread] at hlist
      rw [run_bind_of_error hlist, Header.read_of_list_error hname hread]
    | ok found =>
      obtain ⟨parameters, behindList⟩ := found
      rw [hread] at hlist
      rw [run_bind_of_ok hlist, run_lexArrow]
      cases harrow : Header.arrow behindList with
      | error error => rw [Header.read_of_arrow_error hname hread harrow]
      | ok arrow =>
        rw [Header.read_of_ok hname hread harrow]
        simp

/-- The parenthesis behind `print` is read with the blanks in front of it. -/
theorem run_openPrint :
    openPrint.run ⟨here, tokens⟩ =
      match Scan.printParen here with
      | .ok (paren, behind) => .ok (paren.pos, ⟨behind, tokens ++ [paren]⟩)
      | .error error => .error (.fault (.error error)) := by
  rw [openPrint, run_bind_of_ok (run_run _), ← Cursor.skipBlanks, run_bind_of_ok (run_position _)]
  by_cases hopening : here.skipBlanks.rest.head? = some '('
  · obtain ⟨rest, hrest⟩ := List.head?_eq_some_iff.mp hopening
    have hparen : Scan.printParen here =
        .ok (⟨.leftParen, "(", here.skipBlanks.pos⟩, here.skipBlanks.skip ['(']) := by
      rw [Scan.printParen]
      simp only [hrest]
    rw [run_bind_of_ok (run_expect_of_eq hrest), run_bind_of_ok (run_push _ _), run_pure, hparen]
  · have hnone : Scan.printParen here = .error ⟨.missingPrintParen, here.skipBlanks.pos⟩ := by
      rw [Scan.printParen]
      split
      · next hrest => exact absurd (congrArg List.head? hrest) hopening
      · rfl
    rw [run_bind_of_error (run_expect_of_ne hopening), hnone]

end Equations

end ByCharacter

end Reckoner
