import Reckoner.Token.Lexeme

/-!
Function headers. Behind the word `function` stand a name, parameters between parentheses
with single commas between them, and an arrow, with blanks but no comments around each.
Only name, parameters and arrow become tokens.
-/

set_option autoImplicit false
set_option relaxedAutoImplicit false

namespace Reckoner

open Text

/-- A mapped result comes from a result. -/
theorem exists_of_map_eq_ok {ε α β : Type} {f : α → β} {before : Except ε α} {value : β}
    (h : before.map f = .ok value) : ∃ found, before = .ok found ∧ f found = value := by
  cases before with
  | error error => cases h
  | ok found => exact ⟨found, rfl, Except.ok.inj h⟩

namespace Header

/-- The word at the cursor, if it starts with a letter. -/
def name? (here : Cursor) : Option (List Char) :=
  match here.rest with
  | [] => none
  | c :: rest => if isLetter c then some (Lexeme.word (c :: rest)) else none

theorem length_skip_name {here : Cursor} {name : List Char} (h : name? here = some name) :
    (here.skip name).rest.length < here.rest.length := by
  unfold name? at h
  split at h
  · cases h
  · next c rest hrest =>
    split at h
    · next hc =>
      cases h
      simp only [Cursor.length_skip, hrest, Lexeme.word,
        List.takeWhile_cons_of_pos (isWordChar_of_isLetter c hc), List.length_cons]
      omega
    · cases h

/-- Reads a name, with the blanks around it, as a token of the given kind. -/
def name (kind : TokenKind) (cause : LexError.Cause) (here : Cursor) :
    Except LexError (Token × Cursor) :=
  let start := here.skipBlanks
  match name? start with
  | none => .error ⟨cause, start.pos⟩
  | some name => .ok (⟨kind, String.ofList name, start.pos⟩, (start.skip name).skipBlanks)

theorem length_name {kind : TokenKind} {cause : LexError.Cause} {here next : Cursor}
    {token : Token} (h : name kind cause here = .ok (token, next)) :
    next.rest.length < here.rest.length := by
  unfold name at h
  dsimp only at h
  split at h
  · cases h
  · next name hname =>
    cases h
    have hstart := Cursor.length_skipBlanks here
    have hnext := Cursor.length_skipBlanks (here.skipBlanks.skip name)
    have hshort := length_skip_name hname
    omega

/-- Reads parameters up to the closing parenthesis, at least one. -/
def parameters (here : Cursor) : Except LexError (List Token × Cursor) :=
  match _hname : name .parameter .missingParameterName here with
  | .error error => .error error
  | .ok (token, next) =>
    match next.rest with
    | ')' :: _ => .ok ([token], next.skip [')'])
    | ',' :: _ =>
      (parameters (next.skip [','])).map fun (more, behind) ↦ (token :: more, behind)
    | _ => .error ⟨.missingParameterEnd, next.pos⟩
  termination_by here.rest.length
  decreasing_by
    have hshort := length_name _hname
    rw [Cursor.length_skip]
    omega

theorem parameters_eq (here : Cursor) : parameters here =
    match name .parameter .missingParameterName here with
    | .error error => .error error
    | .ok (token, next) =>
      match next.rest with
      | ')' :: _ => .ok ([token], next.skip [')'])
      | ',' :: _ =>
        (parameters (next.skip [','])).map fun (more, behind) ↦ (token :: more, behind)
      | _ => .error ⟨.missingParameterEnd, next.pos⟩ := by
  rw [parameters]
  split
  · next hname => rw [hname]
  · next hname =>
    rw [hname]

/-- Reads the arrow behind the parameters. -/
def arrow (here : Cursor) : Except LexError (Token × Cursor) :=
  let start := here.skipBlanks
  let word := Lexeme.word start.rest
  match start.rest with
  | '=' :: '>' :: _ => .ok (⟨.doubleArrow, "=>", start.pos⟩, start.skip ['=', '>'])
  | _ =>
    if word = "flinq".toList then
      .ok (⟨.doubleArrow, "flinq", start.pos⟩, start.skip word)
    else .error ⟨.missingFunctionArrow, start.pos⟩

theorem arrow_of_sign {here : Cursor} {more : List Char}
    (h : here.skipBlanks.rest = '=' :: '>' :: more) :
    arrow here = .ok (⟨.doubleArrow, "=>", here.skipBlanks.pos⟩,
      here.skipBlanks.skip ['=', '>']) := by
  simp only [arrow, h]

theorem arrow_of_no_sign {here : Cursor}
    (h : ∀ more, here.skipBlanks.rest ≠ '=' :: '>' :: more) :
    arrow here =
      if Lexeme.word here.skipBlanks.rest = "flinq".toList then
        .ok (⟨.doubleArrow, "flinq", here.skipBlanks.pos⟩,
          here.skipBlanks.skip (Lexeme.word here.skipBlanks.rest))
      else .error ⟨.missingFunctionArrow, here.skipBlanks.pos⟩ := by
  unfold arrow
  dsimp only
  split
  · next more hrest => exact absurd hrest (h more)
  · rfl

/-- Reads the parameters and both parentheses, of which the first is at the cursor. -/
def parameterList (here : Cursor) : Except LexError (List Token × Cursor) :=
  match here.rest with
  | '(' :: _ =>
    let inner := (here.skip ['(']).skipBlanks
    match inner.rest with
    | ')' :: _ => .ok ([], inner.skip [')'])
    | _ => parameters inner
  | _ => .error ⟨.missingFunctionParen, here.pos⟩

/-- Reads the header behind the word `function`. -/
def read (here : Cursor) : Except LexError (List Token × Cursor) := do
  let (name, behindName) ← name .functionName .missingFunctionName here
  let (parameters, behindList) ← parameterList behindName
  let (arrow, behind) ← arrow behindList
  return (name :: (parameters ++ [arrow]), behind)

theorem length_parameters {here behind : Cursor} {tokens : List Token}
    (h : parameters here = .ok (tokens, behind)) : behind.rest.length ≤ here.rest.length := by
  fun_induction parameters here generalizing tokens behind with
  | case1 => cases h
  | case2 here token next hname rest hrest =>
    cases h
    have hshort := length_name hname
    rw [Cursor.length_skip]
    omega
  | case3 here token next hname rest hrest ih =>
    obtain ⟨⟨more, last⟩, hmore, hfound⟩ := exists_of_map_eq_ok h
    obtain ⟨-, rfl⟩ := Prod.mk.inj hfound
    have hrest := ih hmore
    have hshort := length_name hname
    rw [Cursor.length_skip] at hrest
    omega
  | case4 => cases h

theorem length_parameterList {here behind : Cursor} {tokens : List Token}
    (h : parameterList here = .ok (tokens, behind)) : behind.rest.length ≤ here.rest.length := by
  unfold parameterList at h
  split at h
  · have hinner := Cursor.length_skipBlanks (here.skip ['('])
    rw [Cursor.length_skip] at hinner
    dsimp only at h
    split at h
    · cases h
      rw [Cursor.length_skip]
      omega
    · have := length_parameters h
      omega
  · cases h

theorem length_arrow {here behind : Cursor} {token : Token}
    (h : arrow here = .ok (token, behind)) : behind.rest.length ≤ here.rest.length := by
  have hstart := Cursor.length_skipBlanks here
  unfold arrow at h
  dsimp only at h
  split at h
  · cases h
    rw [Cursor.length_skip]
    omega
  · split at h
    · cases h
      rw [Cursor.length_skip]
      omega
    · cases h

/-- A header has a name, parameters and an arrow. -/
theorem exists_of_read_eq_ok {here behind : Cursor} {tokens : List Token}
    (h : read here = .ok (tokens, behind)) :
    ∃ nameToken behindName parameterTokens behindList arrowToken,
      name .functionName .missingFunctionName here = .ok (nameToken, behindName) ∧
        parameterList behindName = .ok (parameterTokens, behindList) ∧
          arrow behindList = .ok (arrowToken, behind) ∧
            tokens = nameToken :: (parameterTokens ++ [arrowToken]) := by
  unfold read at h
  cases hname : name .functionName .missingFunctionName here with
  | error error => simp [hname, bind, Except.bind] at h
  | ok name =>
    cases hlist : parameterList name.2 with
    | error error => simp [hname, hlist, bind, Except.bind] at h
    | ok list =>
      cases harrow : arrow list.2 with
      | error error => simp [hname, hlist, harrow, bind, Except.bind] at h
      | ok arrow =>
        simp only [hname, hlist, harrow, bind, Except.bind, pure, Except.pure] at h
        cases h
        exact ⟨_, _, _, _, _, rfl, hlist, harrow, rfl⟩

/-- A header leaves no more text than it found. -/
theorem length_read {here behind : Cursor} {tokens : List Token}
    (h : read here = .ok (tokens, behind)) : behind.rest.length ≤ here.rest.length := by
  obtain ⟨_, _, _, _, _, hname, hlist, harrow, -⟩ := exists_of_read_eq_ok h
  have hbehindName := length_name hname
  have hbehindList := length_parameterList hlist
  have hbehind := length_arrow harrow
  omega

end Header

end Reckoner
