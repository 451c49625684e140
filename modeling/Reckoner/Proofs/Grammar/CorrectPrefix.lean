import Reckoner.Proofs.Grammar.Tracking

/-!
Errors point at the first token that has no place. The readers of the forms track what the grammar
says their operands go on with, and from that the reader of statements tracks the language of
statements: where it fails because of a token, the tokens in front of that token start a statement
and those up to it start none.
-/

set_option autoImplicit false
set_option relaxedAutoImplicit false

namespace Reckoner

open Computability

namespace Reader

/-- Whether the reader tracks expressions in front of words before which they end. Behind what it
reads there may be operations that it leaves. -/
def TracksOperands (reader : Reader Expr) : Prop :=
  ∀ behind, Stops behind → Tracks reader (exprs * behind) fun _ ↦ tails * behind

/-- Whether it reads whole expressions. -/
structure TracksExprs (scope : Scope) (reader : Reader Expr) : Prop where
  operands : TracksOperands reader
  sound : ∃ depth, Sound scope depth (.expression .sum) reader

variable {scope : Scope} {expr negated : Reader Expr} {behind left : Language Token}

/-- A whole expression ends where no operator follows. -/
theorem TracksExprs.whole (h : TracksExprs scope expr) (hstops : Stops behind) :
    Tracks expr (exprs * behind) fun _ ↦ behind := by
  intro row hended hword
  obtain ⟨depth, hsound⟩ := h.sound
  obtain ⟨hok, herror⟩ := h.operands behind hstops row hended hword
  refine ⟨fun value after hrun ↦ ?_, herror⟩
  obtain ⟨hafter, hleft, front, hfront, hleaves⟩ := hok value after hrun
  obtain ⟨tree, -, hfits, -⟩ := hsound row value after hrun
  have hends : Level.sum.EndsBefore after.rest := hfits.ends
  refine ⟨hafter, (HasWord.mul_iff.mp hleft).2, front, hfront, ?_, ?_⟩
  · intro word h
    refine hleaves.append_mem word ?_
    rw [tails_mul]
    exact .inr h
  · intro word hhead h
    refine mem_of_mem_tails_mul ?_ (hleaves.mem_left word hhead h)
    rwa [Level.EndsBefore, hhead]

theorem TracksExprs.before (h : TracksExprs scope expr) (kind : TokenKind)
    (hkind : kind ≠ .operator ∧ kind ≠ .leftParen) :
    Tracks expr (exprs * (kind.language * behind)) fun _ ↦ kind.language * behind :=
  h.whole (stops_kind_mul hkind.1 hkind.2 behind)

/-! ### Forms -/

theorem tracks_binding (h : Tracks expr (exprs * behind) fun _ ↦ left) :
    Tracks (binding expr) (Phrase.binding.language * behind) fun _ ↦ left := by
  rw [Phrase.language_binding, mul_assoc, mul_assoc]
  exact (tracks_expect .identifier nofun).bind fun _ ↦ tracks_expectEquals.bind fun _ ↦
    h.bind fun _ ↦ tracks_pure _ _

theorem tracked_call (h : TracksExprs scope expr) (name : Token) {row : TokenRow}
    (hparen : (row.rest.headD ⟨.eof, "", .unknown⟩).kind = .leftParen) :
    Tracked ((call expr scope name).run row) row.rest (TokenKind.leftParen.language *
      ((Phrase.items (.expression .sum)).language * (TokenKind.rightParen.language * behind)))
        fun _ ↦ behind := by
  obtain ⟨depth, hsound⟩ := h.sound
  have hrow : row = ⟨_ :: row.rest.tail, row.staged⟩ :=
    congrArg (TokenRow.mk · row.staged) (rest_eq_of_headD (by decide) hparen)
  rw [hrow, call, run_bind_of_ok (run_skip _ _ _)]
  intro hended hword
  have hitems : Tracks (items .rightParen expr) _ fun _ ↦ behind :=
    tracks_items (.expression .sum) trivial (.inl rfl) hsound fun _ hstops ↦ h.whole hstops
  refine Tracked.behind_token ((hitems _).bind fun args after _ ↦ ?_) (by rw [hparen]; decide)
    (HasWord.mul_iff.mp hword).2 (fun word ↦ ?_) hended hword
  · split
    · exact tracks_pure _ _ after
    · split
      · exact tracks_pure _ _ after
      · exact tracks_fail id name after
  · rw [Token.cons_mem_single_mul, and_iff_right hparen]

/-- A name is that of a call where a parenthesis opens behind it. -/
theorem tracked_nameForm (h : TracksExprs scope expr) (hstops : Stops behind)
    (hword : HasWord behind) (name : Token) {row : TokenRow} :
    Tracked ((peek >>= fun token ↦ if token.kind = .leftParen then call expr scope name
      else pure (.access name.pos name.text)).run row) row.rest (tails * behind +
        TokenKind.leftParen.language * ((Phrase.items (.expression .sum)).language *
          (TokenKind.rightParen.language * (tails * behind)))) fun _ ↦ tails * behind := by
  rw [run_bind_of_ok (run_peek row)]
  split
  · next hparen =>
    refine (tracked_call h name hparen).of_leaves (by simp [hword]) ⟨fun word h ↦ .inr h, ?_⟩
    rintro word hhead (h | h)
    · have hrest := rest_eq_of_headD (by decide) hparen
      have hfirst : row.rest.headD ⟨.eof, "", .unknown⟩ ∈ word.head? := by
        rw [hhead, hrest]
        rfl
      exact absurd hparen (noParen_of_mem_tails_mul hstops h _ hfirst)
    · exact h
  · next hparen =>
    refine tracked_ok_here (fun _ ↦ by simp [hword]) ⟨fun word h ↦ .inl h, ?_⟩
    rintro word hhead (h | h)
    · exact h
    · obtain ⟨opening, more, -, rfl⟩ := Token.mem_single_mul.mp h
      rw [List.headD_eq_head?_getD, ← hhead] at hparen
      exact absurd opening.property hparen

theorem tracks_letForm (h : TracksExprs scope expr) (hstops : Stops behind)
    (hword : HasWord behind) (pos : Pos) : Tracks (letForm expr pos)
      (TokenKind.singleArrow.language * (TokenKind.leftBrace.language *
        ((Phrase.items .binding).language * (TokenKind.rightBrace.language *
          (TokenKind.inWord.language * (exprs * behind))))) +
        Phrase.binding.language * (TokenKind.inWord.language * (exprs * behind)))
      fun _ ↦ tails * behind := by
  obtain ⟨depth, hsound⟩ := h.sound
  have hhead (token : Token) (word : List Token) (h : token :: word ∈
      Phrase.binding.language * (TokenKind.inWord.language * (exprs * behind))) :
      token.kind ≠ .singleArrow := by
    rw [Phrase.language_binding, mul_assoc] at h
    rw [(Token.cons_mem_single_mul.mp h).1]
    decide
  refine (tracks_accept .singleArrow nofun (by simp [hword]) (by simp [hword]) hhead).bind
    fun grouped ↦ ?_
  cases grouped with
  | true =>
    exact (tracks_expect .leftBrace nofun).bind fun _ ↦
      (tracks_items .binding trivial (.inr rfl) (sound_binding hsound) fun _ hstops ↦
        tracks_binding (h.whole hstops)).bind fun _ ↦ (tracks_expect .inWord nofun).bind fun _ ↦
          (h.operands _ hstops).bind fun _ ↦ tracks_pure _ _
  | false =>
    exact (tracks_binding (h.before .inWord (by decide))).bind fun _ ↦
      (tracks_expect .inWord nofun).bind fun _ ↦
        (h.operands _ hstops).bind fun _ ↦ tracks_pure _ _

theorem tracks_ifForm (h : TracksExprs scope expr) (hstops : Stops behind) (pos : Pos) :
    Tracks (ifForm expr pos) (TokenKind.leftParen.language * (exprs *
      (TokenKind.comparison.language * (exprs * (TokenKind.rightParen.language *
        (TokenKind.thenWord.language * (exprs * (TokenKind.elseWord.language *
          (exprs * behind))))))))) fun _ ↦ tails * behind :=
  (tracks_expect .leftParen nofun).bind fun _ ↦ (h.before .comparison (by decide)).bind fun _ ↦
    (tracks_expect .comparison nofun).bind fun _ ↦ (h.before .rightParen (by decide)).bind fun _ ↦
      (tracks_expect .rightParen nofun).bind fun _ ↦ (tracks_expect .thenWord nofun).bind fun _ ↦
        (h.before .elseWord (by decide)).bind fun _ ↦ (tracks_expect .elseWord nofun).bind fun _ ↦
          (h.operands _ hstops).bind fun _ ↦ tracks_pure _ _

theorem tracks_functionForm {expr : Scope → Reader Expr}
    (h : ∀ scope, TracksExprs scope (expr scope)) (hstops : Stops behind) (scope : Scope)
    (pos : Pos) : Tracks (functionForm expr scope pos) (TokenKind.functionName.language *
      (TokenKind.parameter.language∗ * (TokenKind.doubleArrow.language * (exprs * behind))))
        fun _ ↦ tails * behind := by
  refine (tracks_expect .functionName nofun).bind fun name ↦ (tracks_get _).bind fun row ↦ ?_
  split
  · exact tracks_fail id name
  · exact (tracks_parameters _).bind fun _ ↦ (tracks_expect .doubleArrow nofun).bind fun _ ↦
      ((h _).operands _ hstops).bind fun _ ↦ (tracks_stage _ _).bind fun _ ↦ tracks_pure _ _

theorem tracks_constForm (h : TracksExprs scope expr) (hstops : Stops behind) (pos : Pos) :
    Tracks (constForm expr pos) (Phrase.binding.language * (tails * behind))
      fun _ ↦ tails * behind := by
  have hvalue : Tracks expr (exprs * (tails * behind)) fun _ ↦ tails * behind := by
    rw [exprs_mul_tails_mul]
    exact h.operands behind hstops
  exact (tracks_binding hvalue).bind fun _ ↦ (tracks_stage _ _).bind fun _ ↦ tracks_pure _ _

theorem tracks_printForm (h : TracksExprs scope expr) (pos : Pos) :
    Tracks (printForm expr pos) (TokenKind.leftParen.language *
      (exprs * (TokenKind.rightParen.language * behind))) fun _ ↦ behind :=
  (tracks_expect .leftParen nofun).bind fun _ ↦ (h.before .rightParen (by decide)).bind fun _ ↦
    (tracks_expect .rightParen nofun).bind fun _ ↦ tracks_pure _ _

theorem tracks_operand {expr : Scope → Reader Expr} (h : ∀ scope, TracksExprs scope (expr scope))
    (hnegated : TracksOperands negated) (scope : Scope) :
    TracksOperands (operand expr negated scope) := by
  intro behind hstops
  refine tracks_of_cons fun token rest staged ↦ tracked_next fun hended hword ↦ ?_
  have hbehind : HasWord behind := (HasWord.mul_iff.mp hword).2
  -- the first token tells what the operand goes on with
  have hmem (word : List Token) : token :: word ∈ exprs * behind ↔
      word ∈ token.operandRest (tails * behind) := by
    rw [← operands_mul_tails_mul]
    exact Token.cons_mem_operands_mul_iff
  have hread {result : Except (Fault ParseError) (Expr × TokenRow)} {middle : Language Token}
      (h : Tracked result rest middle fun _ ↦ tails * behind)
      (hrest : token.operandRest (tails * behind) = middle) (hmiddle : HasWord middle) :=
    h.behind_token (Token.kind_ne_eof_of_operandRest (hrest ▸ hmiddle)) hmiddle
      (fun word ↦ hrest ▸ hmem word) hended hword
  have hfail (hrest : token.operandRest (tails * behind) = 0) :
      ∀ word, token :: word ∉ exprs * behind :=
    fun word h ↦ Language.notMem_zero word (hrest ▸ (hmem word).mp h)
  split
  · next hkind =>
    refine hread (((h scope).before .rightParen (by decide)).bind (fun _ ↦
      (tracks_expect .rightParen nofun).bind fun _ ↦ tracks_pure _ _) ⟨rest, staged⟩) ?_ ?_
    · rw [Token.operandRest, hkind]
    · simp [hbehind]
  · next hkind =>
    split
    · next htext =>
      refine hread ((hnegated behind hstops).bind (fun _ ↦ tracks_pure _ _) ⟨rest, staged⟩) ?_ ?_
      · simp only [Token.operandRest, hkind, htext, if_true, operands_mul_tails_mul]
      · simp [hbehind]
    · next htext =>
      exact tracked_error (hfail (by simp [Token.operandRest, hkind, htext])) hended hword
  · next hkind =>
    split
    · refine hread (tracks_pure _ _ ⟨rest, staged⟩) ?_ ?_
      · rw [Token.operandRest, hkind]
      · simp [hbehind]
    · exact tracks_fail id token ⟨token :: rest, staged⟩ hended hword
  · next hkind =>
    refine hread (tracks_pure _ _ ⟨rest, staged⟩) ?_ ?_
    · rw [Token.operandRest, hkind]
    · simp [hbehind]
  · next hkind =>
    refine hread (tracked_nameForm (h scope) hstops hbehind token) ?_ ?_
    · rw [Token.operandRest, hkind]
    · exact HasWord.add_iff.mpr (.inl (by simp [hbehind]))
  · next hkind =>
    refine hread (tracks_letForm (h scope) hstops hbehind token.pos ⟨rest, staged⟩) ?_ ?_
    · simp only [Token.operandRest, hkind, exprs_mul_tails_mul]
    · exact HasWord.add_iff.mpr (.inl (by simp [hbehind]))
  · next hkind =>
    refine hread (tracks_ifForm (h scope) hstops token.pos ⟨rest, staged⟩) ?_ ?_
    · simp only [Token.operandRest, hkind, exprs_mul_tails_mul]
    · simp [hbehind]
  · next hkind =>
    refine hread (tracks_functionForm h hstops scope token.pos ⟨rest, staged⟩) ?_ ?_
    · simp only [Token.operandRest, hkind, exprs_mul_tails_mul]
    · simp [hbehind]
  · next hkind =>
    refine hread (tracks_constForm (h scope) hstops token.pos ⟨rest, staged⟩) ?_ ?_
    · rw [Token.operandRest, hkind]
    · simp [hbehind]
  · next hkind =>
    refine hread (tracks_printForm (h scope) token.pos ⟨rest, staged⟩) ?_ ?_
    · rw [Token.operandRest, hkind]
    · simp [hbehind]
  · refine tracked_error (hfail ?_) hended hword
    unfold Token.operandRest
    split <;> first | rfl | contradiction

theorem tracks_expression (depth : Nat) (level : Level) (scope : Scope) :
    TracksOperands (expression depth level scope) := by
  induction depth generalizing level scope with
  | zero => exact fun _ _ ↦ tracks_tooDeep
  | succ depth ih =>
    have hwhole (scope : Scope) : TracksExprs scope (expression depth .sum scope) :=
      ⟨ih .sum scope, depth, sound_expression depth .sum scope⟩
    intro behind hstops
    cases level with
    | sum => exact tracks_operations hstops (ih .product scope behind hstops)
    | product => exact tracks_operations hstops (ih .power scope behind hstops)
    | power => exact tracks_operations hstops (ih .operand scope behind hstops)
    | operand => exact tracks_operand hwhole (ih .operand scope) scope behind hstops

end Reader

/-! ### Statements -/

namespace ParseError

/-- The messages about tokens that are not in their place start with the same words, and no others
do. -/
theorem isUnexpected_iff (error : ParseError) :
    error.cause.IsUnexpected ↔ "unexpected token".toList <+: error.detail.toList := by
  have hstarts (more : String) :
      "unexpected token".toList <+: ("unexpected token " ++ more).toList := by
    rw [String.toList_append]
    exact ⟨' ' :: more.toList, rfl⟩
  have hother (start more : String) (hstart : start.toList.take 3 ≠ "une".toList)
      (hlength : 3 ≤ start.toList.length) :
      ¬ "unexpected token".toList <+: (start ++ more).toList := by
    rintro ⟨rest, hrest⟩
    rw [String.toList_append] at hrest
    have htake := congrArg (List.take 3) hrest
    rw [List.take_append_of_le_length hlength] at htake
    exact hstart htake.symm
  obtain ⟨cause, token⟩ := error
  cases cause <;>
    simp only [Cause.IsUnexpected, detail, String.append_assoc, true_iff, false_iff]
  · exact hstarts _
  · exact hstarts _
  · exact hstarts _
  · exact hstarts _
  · exact hother _ _ (by decide) (by decide)
  · exact hother _ _ (by decide) (by decide)
  · exact hother _ _ (by decide) (by decide)
  · exact hother _ _ (by decide) (by decide)

end ParseError

namespace Statement

theorem tracks_reader (limit : Nat) (declarations : Declarations) :
    (reader limit declarations).Tracks language fun _ ↦ TokenKind.eof.language := by
  rw [language_eq, add_mul, one_mul]
  have hstops : Stops (TokenKind.semicolon.language * TokenKind.eof.language +
      TokenKind.eof.language) := by
    refine Stops.add (stops_kind_mul (by decide) (by decide) _) ?_
    rw [← mul_one TokenKind.eof.language]
    exact stops_kind_mul (by decide) (by decide) 1
  have hexpr : Reader.TracksExprs ⟨declarations, none⟩
      (Reader.expression limit .sum ⟨declarations, none⟩) :=
    ⟨Reader.tracks_expression limit .sum _, limit, Reader.sound_expression limit .sum _⟩
  have hhead (token : Token) (word : List Token) (h : token :: word ∈ TokenKind.eof.language) :
      token.kind = .eof := by
    obtain ⟨mark, hmark, hword⟩ := h
    obtain ⟨rfl, -⟩ := List.cons.inj hword
    exact hmark
  have hend (expr : Expr) : (Reader.peek >>= fun token ↦
      if token.kind = .eof then get >>= fun row ↦ pure (Statement.mk expr row.staged)
      else Reader.fail .afterStatement token).Tracks TokenKind.eof.language
        fun _ ↦ TokenKind.eof.language := by
    refine Reader.tracks_of_cons fun token rest staged ↦ ?_
    rw [run_bind_of_ok (Reader.run_peek _)]
    split
    · exact (Reader.tracks_get _).bind (fun row ↦ Reader.tracks_pure _ _) _
    · next hother => exact Reader.tracked_error fun word h ↦ hother (hhead token word h)
  have hsemicolon := Reader.tracks_accept .semicolon nofun (HasWord.kind .eof) (HasWord.kind .eof)
    fun token word h ↦ by rw [hhead token word h]; decide
  refine (hexpr.whole hstops).bind fun expr ↦ hsemicolon.bind fun closed ↦ ?_
  cases closed with
  | true => exact hend expr
  | false => exact hend expr

/-- An error about a token that is not in its place points at the first such token: the tokens in
front of it start a statement, and with it they start none. -/
theorem correct_prefix {limit : Nat} {declarations : Declarations} {tokens : List Token}
    {mark : Token} (hmark : tokens.getLast? = some mark) (heof : mark.kind = .eof)
    {error : ParseError} (h : ofTokens limit declarations tokens = .error (.error error))
    (hunexpected : "unexpected token".toList <+: error.detail.toList) :
    ∃ before after, tokens = before ++ error.token :: after ∧
      (∃ statement ∈ language, before <+: statement) ∧
        ∀ statement ∈ language, ¬ before ++ [error.token] <+: statement := by
  have hended : Ended tokens := ⟨mark, List.mem_of_getLast? hmark, heof⟩
  have hword : HasWord language := by
    rw [language_eq, HasWord.mul_iff, HasWord.mul_iff, HasWord.add_iff]
    simp
  obtain ⟨-, herror⟩ := tracks_reader limit declarations ⟨tokens, []⟩ hended hword
  unfold ofTokens at h
  cases hrun : (reader limit declarations).run ⟨tokens, []⟩ with
  | ok found =>
    rw [hrun] at h
    cases h
  | error fault =>
    rw [hrun] at h
    cases h
    obtain ⟨before, after, htokens, hbefore, hnone⟩ :=
      herror error hrun (error.isUnexpected_iff.mpr hunexpected)
    exact ⟨before, after, htokens, hbefore, fun statement hstatement hfront ↦
      hnone ⟨statement, hstatement, hfront⟩⟩

/-- An argument lacks an operand, in a call of a function that there is not: the statement could
have gone on up to the parenthesis. -/
theorem correct_prefix_of_call :
    let tokens : List Token := [⟨.letWord, "let", ⟨1, 1⟩⟩, ⟨.identifier, "x", ⟨1, 5⟩⟩,
      ⟨.operator, "=", ⟨1, 7⟩⟩, ⟨.identifier, "f", ⟨1, 9⟩⟩, ⟨.leftParen, "(", ⟨1, 10⟩⟩,
      ⟨.identifier, "y", ⟨1, 11⟩⟩, ⟨.comma, ",", ⟨1, 12⟩⟩, ⟨.operator, "-", ⟨1, 14⟩⟩,
      ⟨.rightParen, ")", ⟨1, 15⟩⟩, ⟨.eof, "", ⟨1, 16⟩⟩]
    ofTokens 20 (.initial .empty []) tokens =
      .error (.error ⟨.noExpression, ⟨.rightParen, ")", ⟨1, 15⟩⟩⟩) ∧
    ∃ before after, tokens = before ++ ⟨.rightParen, ")", ⟨1, 15⟩⟩ :: after ∧
      (∃ statement ∈ language, before <+: statement) ∧
        ∀ statement ∈ language, ¬ before ++ [⟨.rightParen, ")", ⟨1, 15⟩⟩] <+: statement := by
  intro tokens
  have h : ofTokens 20 (.initial .empty []) tokens =
      .error (.error ⟨.noExpression, ⟨.rightParen, ")", ⟨1, 15⟩⟩⟩) := by
    rfl
  exact ⟨h, correct_prefix rfl rfl h (by decide)⟩

end Statement

end Reckoner
