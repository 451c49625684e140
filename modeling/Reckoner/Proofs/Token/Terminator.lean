import Reckoner.Proofs.Token.Parallel

/-!
Scanning in front of a semicolon. No lexeme, header or print that is read to its end reaches
over a semicolon, unless there are quotes behind it. So the tokens of a text that goes on with a
semicolon start with those of the text by itself, and if nothing but blanks and semicolons
follows, the next of them is a semicolon or the end mark.
-/

set_option autoImplicit false
set_option relaxedAutoImplicit false

namespace Reckoner

open Text

theorem apart_semicolon (tail : List Char) : Apart (';' :: tail) :=
  apart_cons.mpr (by decide)

theorem closed_semicolon (tail : List Char) : Closed (';' :: tail) := by
  refine ⟨apart_semicolon tail, ?_⟩
  rintro d ⟨⟩
  decide

namespace Cursor

variable {here : Cursor} {tail : List Char}

/-- The cursor in a text that goes on with a semicolon and a tail. -/
def terminated (here : Cursor) (tail : List Char) : Cursor :=
  ⟨here.rest ++ ';' :: tail, here.pos⟩

/-- A cursor and the same one before a semicolon. -/
theorem parallel_terminated :
    Parallel (';' :: tail) fun here here' ↦ here' = here.terminated tail :=
  parallel_followed (closed_semicolon tail)

/-- Behind a text of layout alone the layout goes on. -/
theorem mem_skipLayout_terminated (h : layout false here.rest = here.rest) :
    ∀ d ∈ (here.terminated tail).skipLayout.rest, d ∈ ';' :: tail := by
  obtain ⟨inComment, hlayout⟩ := layout_append_of_eq h
  intro d hd
  simp only [skipLayout, skip, terminated, hlayout, List.length_append, List.drop_append] at hd
  rw [List.drop_of_length_le (Nat.le_add_right _ _), List.nil_append] at hd
  exact List.mem_of_mem_drop hd

end Cursor

namespace Scan

variable {limit : Nat} {opens : List OpenPrint} {afterOperand : Bool} {here : Cursor} {c : Char}
  {rest tail : List Char}

/-- A step is the same before a semicolon, if there are no quotes behind it. -/
theorem step_terminated {others : List OpenPrint} (hrest : here.rest = c :: rest)
    (htail : '"' ∉ tail) (hothers : others.map (·.depth) = opens.map (·.depth)) :
    Alike (Step.Corresponds fun here here' ↦ here' = here.terminated tail)
      (step limit opens afterOperand here c rest)
      (step limit others afterOperand (here.terminated tail) c (rest ++ ';' :: tail)) :=
  step_alike limit Cursor.parallel_terminated rfl hrest hothers
    (Lexeme.read_append_of_unquoted (apart_semicolon tail) (by simp [htail]))

/-- Whether a text consists of blanks and semicolons. -/
def Idle (source : List Char) : Prop :=
  ∀ d ∈ source, isBlank d = true ∨ d = ';'

theorem Idle.unquoted {source : List Char} (h : Idle source) : '"' ∉ source := by
  intro hquote
  rcases h _ hquote with hblank | hsemicolon
  · revert hblank
    decide
  · cases hsemicolon

theorem step_semicolon :
    step limit opens afterOperand here ';' rest =
      .ok ⟨[⟨.semicolon, ";", here.pos⟩], opens, false, here.skip [';']⟩ := by
  have hread : Lexeme.read afterOperand ';' rest = .ok (Lexeme.plain .semicolon [';']) := by
    have hletter : isLetter ';' = false := by decide
    have hdecimal : isDecimal ';' = false := by decide
    simp [Lexeme.read, hletter, hdecimal, TokenKind.ofPunctuation?]
  simp only [step, hread]
  cases opens <;> rfl

/-- Where the first character behind the layout is a semicolon, or there is none, the first token
is a semicolon or the end mark. -/
theorem head_tokens {found : List Token} (hhead : ∀ c ∈ here.skipLayout.rest.head?, c = ';')
    (h : tokens limit opens afterOperand here = .ok found) :
    ∃ token ∈ found.head?, token.kind = .semicolon ∨ token.kind = .eof := by
  rw [tokens_eq] at h
  cases hrest : here.skipLayout.rest with
  | nil =>
    rw [hrest] at h
    cases opens with
    | nil =>
      cases h
      exact ⟨_, rfl, .inr rfl⟩
    | cons innermost outer => cases h
  | cons c rest =>
    have hc : c = ';' := hhead c (by rw [hrest]; rfl)
    rw [hrest, hc] at h
    dsimp only at h
    rw [step_semicolon] at h
    obtain ⟨more, -, rfl⟩ := exists_of_map_eq_ok h
    exact ⟨_, rfl, .inl rfl⟩

theorem Idle.head (h : Idle here.skipLayout.rest) :
    ∀ c ∈ here.skipLayout.rest.head?, c = ';' := by
  intro c hc
  obtain ⟨rest, hrest⟩ := List.head?_eq_some_iff.mp hc
  have hblank : isBlank c = false := Cursor.isBlank_of_drop_layout hrest
  have hidle := h c (List.mem_of_mem_head? hc)
  rwa [hblank, Bool.false_eq_true, false_or] at hidle

/-- No print is closed among blanks and semicolons. -/
theorem opens_of_idle {found : List Token} (hidle : Idle here.skipLayout.rest)
    (h : tokens limit opens afterOperand here = .ok found) : opens = [] := by
  fun_induction tokens limit opens afterOperand here generalizing found with
  | case1 => rfl
  | case2 => cases h
  | case3 => cases h
  | case4 opens afterOperand here start c rest hrest found' hstep =>
    rename_i ih
    obtain ⟨more, hmore, rfl⟩ := exists_of_map_eq_ok h
    have hc : c = ';' := hidle.head c (List.head?_eq_some_iff.mpr ⟨rest, hrest⟩)
    subst hc
    rw [step_semicolon] at hstep
    cases hstep
    exact ih (fun d hd ↦ hidle d (List.mem_of_mem_drop (List.mem_of_mem_drop hd))) hmore

/-- Where a text goes on with nothing but blanks and semicolons, of which the first is a
semicolon, its own tokens come first, up to the end mark. -/
theorem tokens_terminated {others : List OpenPrint} {found : List Token} (hidle : Idle tail)
    (hothers : others.map (·.depth) = opens.map (·.depth))
    (h : tokens limit others afterOperand (here.terminated tail) = .ok found) :
    ∃ first behind pos, tokens limit opens afterOperand here = .ok (first ++ [⟨.eof, "", pos⟩]) ∧
      found = first ++ behind ∧
        ∃ token ∈ behind.head?, token.kind = .semicolon ∨ token.kind = .eof := by
  have hend {here : Cursor} {opens : List OpenPrint} {afterOperand : Bool} {found : List Token}
      (hrest : here.skipLayout.rest = [])
      (h : tokens limit opens afterOperand (here.terminated tail) = .ok found) :
      opens = [] ∧ ∃ token ∈ found.head?, token.kind = .semicolon ∨ token.kind = .eof := by
    have hidle : Idle (here.terminated tail).skipLayout.rest := by
      intro d hd
      rcases List.mem_cons.mp (Cursor.mem_skipLayout_terminated
        (Cursor.rest_skipLayout_eq_nil.mp hrest) d hd) with rfl | hd
      · exact .inr rfl
      · exact hidle d hd
    exact ⟨opens_of_idle hidle h, head_tokens hidle.head h⟩
  have hstart {here : Cursor} {c : Char} {rest : List Char}
      (hrest : here.skipLayout.rest = c :: rest) :
      (here.terminated tail).skipLayout = here.skipLayout.terminated tail := by
    refine Cursor.parallel_terminated.skipLayout rfl fun hall ↦ ?_
    rw [Cursor.rest_skipLayout_eq_nil.mpr hall] at hrest
    cases hrest
  have hterminated {here : Cursor} {c : Char} {rest : List Char}
      (hrest : here.skipLayout.rest = c :: rest) :
      (here.terminated tail).skipLayout.rest = c :: (rest ++ ';' :: tail) := by
    rw [hstart hrest, Cursor.terminated, hrest, List.cons_append]
  fun_induction tokens limit opens afterOperand here generalizing others found with
  | case1 afterOperand here start =>
    rename_i hrest
    exact ⟨[], found, _, rfl, rfl, (hend hrest h).2⟩
  | case2 afterOperand here start hrest =>
    obtain rfl := (hend hrest h).1
    cases hothers
  | case3 opens afterOperand here start c rest hrest fault =>
    rename_i hstep
    obtain ⟨fault', hstep'⟩ := (hstep ▸ step_terminated hrest hidle.unquoted hothers).of_error
    rw [tokens_cons (hterminated hrest), hstart hrest, hstep'] at h
    cases h
  | case4 opens afterOperand here start c rest hrest step hstep =>
    rename_i ih
    obtain ⟨step', hstep', hsame⟩ := (hstep ▸ step_terminated hrest hidle.unquoted hothers).of_ok
    rw [tokens_cons (hterminated hrest), hstart hrest, hstep'] at h
    obtain ⟨more, hmore, rfl⟩ := exists_of_map_eq_ok h
    rw [hsame.afterOperand, hsame.next] at hmore
    obtain ⟨first, behind, pos, hfirst, rfl, hhead⟩ := ih hsame.opens hmore
    refine ⟨step.tokens ++ first, behind, pos, ?_, ?_, hhead⟩
    · rw [hfirst]
      exact congrArg Except.ok (List.append_assoc _ _ _).symm
    · rw [Token.eq_of_corresponds_followed hsame.tokens, List.append_assoc]

end Scan

end Reckoner
