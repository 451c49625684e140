import Reckoner.Proofs.Grammar.Reading

/-!
Where readers fail. A reader takes tokens off the front of its row and nothing else, and the
token that its error names is one of the row or the mark of its end. Only the token of a
number can be at fault as such, and only if its text is no number.
-/

set_option autoImplicit false
set_option relaxedAutoImplicit false

namespace Reckoner

/-- The token stands among the tokens or marks their end. -/
def Token.Known (tokens : List Token) (token : Token) : Prop :=
  token ∈ tokens ∨ token = ⟨.eof, "", .unknown⟩

/-- The error names a token that is known, and calls none an invalid number that is a number. -/
structure ParseError.PointsInto (tokens : List Token) (error : ParseError) : Prop where
  token : error.token.Known tokens
  number : error.cause = .invalidNumber →
    error.token.kind = .number ∧ Number.read? error.token.text = none

namespace Reader

variable {α β : Type} {tokens : List Token} {result : α → Prop} {result' : β → Prop}

/-- What the reader is sure to do behind a front of the tokens: to leave an end of them, with a
result as described, or to fail at one of them. -/
def Within (tokens : List Token) (reader : Reader α) (result : α → Prop) : Prop :=
  ∀ row : TokenRow, row.rest <:+ tokens →
    (∀ value after, reader.run row = .ok (value, after) → after.rest <:+ tokens ∧ result value) ∧
    ∀ error, reader.run row = .error (.error error) → error.PointsInto tokens

/-- A reader that succeeds on every row. -/
theorem within_of_run_eq_ok {reader : Reader α} {value : TokenRow → α}
    {after : TokenRow → TokenRow} (hrun : ∀ row, reader.run row = .ok (value row, after row))
    (hafter : ∀ row : TokenRow, row.rest <:+ tokens →
      (after row).rest <:+ tokens ∧ result (value row)) : reader.Within tokens result := by
  intro row hrow
  rw [hrun row]
  refine ⟨fun found behind h ↦ ?_, fun error h ↦ by cases h⟩
  cases h
  exact hafter row hrow

/-- A reader that fails on every row. -/
theorem within_of_run_eq_error {reader : Reader α} {fault : Fault ParseError}
    (hrun : ∀ row, reader.run row = .error fault)
    (hfault : ∀ error, fault = .error error → error.PointsInto tokens) :
    reader.Within tokens result := by
  intro row _
  rw [hrun row]
  refine ⟨fun found behind h ↦ (by cases h), fun error h ↦ ?_⟩
  cases h
  exact hfault error rfl

theorem Within.bind {reader : Reader α} {next : α → Reader β} (h : reader.Within tokens result)
    (hnext : ∀ value, result value → (next value).Within tokens result') :
    (reader >>= next).Within tokens result' := by
  intro row hrow
  obtain ⟨hok, herror⟩ := h row hrow
  cases hrun : reader.run row with
  | error fault =>
    rw [run_bind_of_error hrun]
    refine ⟨fun found behind h ↦ (by cases h), fun error h ↦ ?_⟩
    cases h
    exact herror error hrun
  | ok found =>
    obtain ⟨value, middle⟩ := found
    obtain ⟨hmiddle, hvalue⟩ := hok value middle hrun
    rw [run_bind_of_ok hrun]
    exact hnext value hvalue middle hmiddle

theorem within_pure {value : α} (h : result value) :
    (pure value : Reader α).Within tokens result :=
  within_of_run_eq_ok (run_pure value) fun _ hrow ↦ ⟨hrow, h⟩

theorem within_fail {cause : ParseError.Cause} {token : Token} (htoken : token.Known tokens)
    (hcause : cause ≠ .invalidNumber) : (fail cause token : Reader α).Within tokens result := by
  refine within_of_run_eq_error (run_fail cause token) fun error herror ↦ ?_
  cases herror
  exact ⟨htoken, fun h ↦ absurd h hcause⟩

theorem within_tooDeep : Within tokens (throw .tooDeep) result :=
  within_of_run_eq_error (fun _ ↦ rfl) fun _ herror ↦ by cases herror

theorem within_get : Within tokens (get : Reader TokenRow) (·.rest <:+ tokens) :=
  within_of_run_eq_ok run_get fun _ hrow ↦ ⟨hrow, hrow⟩

theorem within_peek : peek.Within tokens (·.Known tokens) := by
  refine within_get.bind fun row hrow ↦ within_pure ?_
  obtain ⟨rest, staged⟩ := row
  cases rest with
  | nil => exact .inr rfl
  | cons token rest => exact .inl (hrow.subset List.mem_cons_self)

theorem within_skip : skip.Within tokens fun _ ↦ True :=
  within_of_run_eq_ok (fun _ ↦ rfl) fun row hrow ↦ ⟨(List.tail_suffix row.rest).trans hrow, trivial⟩

theorem within_stage (declaration : Declaration) :
    (stage declaration).Within tokens fun _ ↦ True :=
  within_of_run_eq_ok (run_stage declaration) fun _ hrow ↦ ⟨hrow, trivial⟩

theorem within_next : next.Within tokens (·.Known tokens) :=
  within_peek.bind fun _ htoken ↦ within_skip.bind fun _ _ ↦ within_pure htoken

theorem within_accept (kind : TokenKind) : (accept kind).Within tokens fun _ ↦ True := by
  refine within_peek.bind fun token _ ↦ ?_
  split
  · exact within_skip.bind fun _ _ ↦ within_pure trivial
  · exact within_pure trivial

theorem within_expect (kind : TokenKind) : (expect kind).Within tokens (·.Known tokens) := by
  refine within_next.bind fun token htoken ↦ ?_
  split
  · exact within_pure htoken
  · exact within_fail htoken nofun

theorem within_expectEquals : expectEquals.Within tokens fun _ ↦ True := by
  refine within_next.bind fun token htoken ↦ ?_
  split
  · exact within_pure trivial
  · exact within_fail htoken nofun

theorem within_acceptOperator (isOne : Operator → Bool) :
    (acceptOperator isOne).Within tokens fun _ ↦ True := by
  refine within_peek.bind fun token _ ↦ ?_
  split
  · exact within_skip.bind fun _ _ ↦ within_pure trivial
  · exact within_pure trivial

theorem within_operationsWithin {isOne : Operator → Bool} {operand : Reader Expr}
    (h : operand.Within tokens fun _ ↦ True) (bound : List Token) (left : Expr) :
    (operationsWithin isOne operand bound left).Within tokens fun _ ↦ True := by
  induction bound generalizing left with
  | nil => exact within_pure trivial
  | cons bounding bound ih =>
    refine (within_acceptOperator isOne).bind fun found _ ↦ ?_
    cases found with
    | none => exact within_pure trivial
    | some token => exact h.bind fun right _ ↦ ih _

theorem within_operations {isOne : Operator → Bool} {operand : Reader Expr}
    (h : operand.Within tokens fun _ ↦ True) :
    (operations isOne operand).Within tokens fun _ ↦ True :=
  h.bind fun first _ ↦ within_get.bind fun row _ ↦ within_operationsWithin h row.rest first

theorem within_itemsWithin {close : TokenKind} {item : Reader α}
    (h : item.Within tokens fun _ ↦ True) (bound : List Token) (started : Bool) :
    (itemsWithin close item bound started).Within tokens fun _ ↦ True := by
  induction bound generalizing started with
  | nil => exact (within_expect close).bind fun _ _ ↦ within_pure trivial
  | cons bounding bound ih =>
    have hitem : (item >>= fun first ↦ itemsWithin close item bound true >>= fun others ↦
        pure (first :: others)).Within tokens fun _ ↦ True :=
      h.bind fun first _ ↦ (ih true).bind fun others _ ↦ within_pure trivial
    refine (within_accept close).bind fun closed _ ↦ ?_
    cases closed with
    | true => exact within_pure trivial
    | false =>
      cases started with
      | true => exact (within_expect .comma).bind fun _ _ ↦ hitem
      | false => exact hitem

theorem within_items {close : TokenKind} {item : Reader α}
    (h : item.Within tokens fun _ ↦ True) :
    (items close item).Within tokens fun _ ↦ True :=
  within_get.bind fun row _ ↦ within_itemsWithin h row.rest false

theorem within_binding {expr : Reader Expr} (h : expr.Within tokens fun _ ↦ True) :
    (binding expr).Within tokens fun _ ↦ True :=
  (within_expect .identifier).bind fun _ _ ↦ within_expectEquals.bind fun _ _ ↦
    h.bind fun _ _ ↦ within_pure trivial

theorem within_call {expr : Reader Expr} (h : expr.Within tokens fun _ ↦ True) (scope : Scope)
    {name : Token} (hname : name.Known tokens) :
    (call expr scope name).Within tokens fun _ ↦ True := by
  refine within_skip.bind fun _ _ ↦ (within_items h).bind fun args _ ↦ ?_
  split
  · exact within_pure trivial
  · split
    · exact within_pure trivial
    · exact within_fail hname nofun

theorem within_letForm {expr : Reader Expr} (h : expr.Within tokens fun _ ↦ True) (pos : Pos) :
    (letForm expr pos).Within tokens fun _ ↦ True := by
  refine (within_accept .singleArrow).bind fun grouped _ ↦ ?_
  cases grouped with
  | true =>
    exact (within_expect .leftBrace).bind fun _ _ ↦ (within_items (within_binding h)).bind fun _ _ ↦
      (within_expect .inWord).bind fun _ _ ↦ h.bind fun _ _ ↦ within_pure trivial
  | false =>
    exact (within_binding h).bind fun _ _ ↦ (within_expect .inWord).bind fun _ _ ↦
      h.bind fun _ _ ↦ within_pure trivial

theorem within_ifForm {expr : Reader Expr} (h : expr.Within tokens fun _ ↦ True) (pos : Pos) :
    (ifForm expr pos).Within tokens fun _ ↦ True :=
  (within_expect .leftParen).bind fun _ _ ↦ h.bind fun _ _ ↦
    (within_expect .comparison).bind fun _ _ ↦ h.bind fun _ _ ↦
      (within_expect .rightParen).bind fun _ _ ↦ (within_expect .thenWord).bind fun _ _ ↦
        h.bind fun _ _ ↦ (within_expect .elseWord).bind fun _ _ ↦
          h.bind fun _ _ ↦ within_pure trivial

theorem mem_of_firstRepeated? {names : List String} {tokens : List Token} {token : Token}
    (h : firstRepeated? names tokens = some token) : token ∈ tokens := by
  induction tokens generalizing names with
  | nil => cases h
  | cons first rest ih =>
    rw [firstRepeated?] at h
    split at h
    · cases h
      exact List.mem_cons_self
    · exact List.mem_cons_of_mem first (ih h)

theorem within_parameters (function : String) :
    (parameters function).Within tokens fun _ ↦ True := by
  refine within_get.bind fun row hrow ↦ ?_
  dsimp only
  split
  · next token htoken =>
    have hmem : token ∈ row.rest := (List.takeWhile_sublist _).subset (mem_of_firstRepeated? htoken)
    exact within_fail (.inl (hrow.subset hmem)) nofun
  · exact within_of_run_eq_ok (fun _ ↦ rfl) fun _ _ ↦
      ⟨(List.dropWhile_suffix _).trans hrow, trivial⟩

theorem within_functionForm {expr : Scope → Reader Expr}
    (h : ∀ scope, (expr scope).Within tokens fun _ ↦ True) (scope : Scope) (pos : Pos) :
    (functionForm expr scope pos).Within tokens fun _ ↦ True := by
  refine (within_expect .functionName).bind fun name hname ↦ within_get.bind fun row _ ↦ ?_
  split
  · exact within_fail hname nofun
  · exact (within_parameters _).bind fun _ _ ↦ (within_expect .doubleArrow).bind fun _ _ ↦
      (h _).bind fun _ _ ↦ (within_stage _).bind fun _ _ ↦ within_pure trivial

theorem within_constForm {expr : Reader Expr} (h : expr.Within tokens fun _ ↦ True) (pos : Pos) :
    (constForm expr pos).Within tokens fun _ ↦ True :=
  (within_binding h).bind fun _ _ ↦ (within_stage _).bind fun _ _ ↦ within_pure trivial

theorem within_printForm {expr : Reader Expr} (h : expr.Within tokens fun _ ↦ True) (pos : Pos) :
    (printForm expr pos).Within tokens fun _ ↦ True :=
  (within_expect .leftParen).bind fun _ _ ↦ h.bind fun _ _ ↦
    (within_expect .rightParen).bind fun _ _ ↦ within_pure trivial

theorem within_operand {expr : Scope → Reader Expr} {negated : Reader Expr}
    (h : ∀ scope, (expr scope).Within tokens fun _ ↦ True)
    (hnegated : negated.Within tokens fun _ ↦ True) (scope : Scope) :
    (operand expr negated scope).Within tokens fun _ ↦ True := by
  refine within_next.bind fun token htoken ↦ ?_
  split
  · exact (h scope).bind fun _ _ ↦ (within_expect .rightParen).bind fun _ _ ↦ within_pure trivial
  · split
    · exact hnegated.bind fun _ _ ↦ within_pure trivial
    · exact within_fail htoken nofun
  · next hkind =>
    split
    · exact within_pure trivial
    · next hnone =>
      -- the only failure that blames the text of a token
      refine within_of_run_eq_error (run_fail .invalidNumber token) fun error herror ↦ ?_
      cases herror
      exact ⟨htoken, fun _ ↦ ⟨hkind, hnone⟩⟩
  · exact within_pure trivial
  · refine within_peek.bind fun following _ ↦ ?_
    split
    · exact within_call (h scope) scope htoken
    · exact within_pure trivial
  · exact within_letForm (h scope) token.pos
  · exact within_ifForm (h scope) token.pos
  · exact within_functionForm h scope token.pos
  · exact within_constForm (h scope) token.pos
  · exact within_printForm (h scope) token.pos
  · exact within_fail htoken nofun

theorem within_expression (tokens : List Token) (depth : Nat) (level : Level) (scope : Scope) :
    (expression depth level scope).Within tokens fun _ ↦ True := by
  induction depth generalizing level scope with
  | zero => exact within_tooDeep
  | succ depth ih =>
    cases level with
    | sum => exact within_operations (ih .product scope)
    | product => exact within_operations (ih .power scope)
    | power => exact within_operations (ih .operand scope)
    | operand => exact within_operand (fun inner ↦ ih .sum inner) (ih .operand scope) scope

end Reader

/-- The error of tokens that are no statement names one of them or their end. -/
theorem Statement.pointsInto_of_ofTokens {limit : Nat} {declarations : Declarations}
    {tokens : List Token} {error : ParseError}
    (h : ofTokens limit declarations tokens = .error (.error error)) :
    error.PointsInto tokens := by
  have hreader : (reader limit declarations).Within tokens fun _ ↦ True := by
    refine (Reader.within_expression tokens limit .sum _).bind fun _ _ ↦
      (Reader.within_accept .semicolon).bind fun _ _ ↦ Reader.within_peek.bind fun token htoken ↦ ?_
    split
    · exact Reader.within_get.bind fun _ _ ↦ Reader.within_pure trivial
    · exact Reader.within_fail htoken nofun
  have herror := (hreader ⟨tokens, []⟩ (List.suffix_refl tokens)).2 error
  unfold ofTokens at h
  cases hrun : (reader limit declarations).run ⟨tokens, []⟩ with
  | ok found =>
    rw [hrun] at h
    cases h
  | error fault =>
    rw [hrun] at h
    cases h
    exact herror hrun

end Reckoner
