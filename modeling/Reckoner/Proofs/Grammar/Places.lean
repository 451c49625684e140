import Reckoner.Proofs.Declarations.Places
import Reckoner.Proofs.Grammar.Reading

/-!
Reading does not look at positions. Taking the positions out of a row of tokens before it is read
comes to the same as taking them out of the result: out of the expression and of what it declares,
or out of the error. Of the declarations in force reading asks no more than which names are those
of functions.
-/

set_option autoImplicit false
set_option relaxedAutoImplicit false

namespace Reckoner

/-- The token without its position. -/
def Token.unplaced (token : Token) : Token :=
  { token with pos := .unknown }

/-- The row with all positions taken away. -/
def TokenRow.unplaced (row : TokenRow) : TokenRow :=
  ⟨row.rest.map Token.unplaced, row.staged.map Declaration.unplaced⟩

/-- The error without the position of its token. -/
def ParseError.unplaced (error : ParseError) : ParseError :=
  { error with token := error.token.unplaced }

/-- The statement with all positions taken away. -/
def Statement.unplaced (statement : Statement) : Statement :=
  ⟨statement.expr.unplaced, statement.declared.map Declaration.unplaced⟩

/-- The fault with its error changed. -/
def Fault.map {ε ε' : Type} (change : ε → ε') : Fault ε → Fault ε'
  | error found => error (change found)
  | tooDeep => tooDeep

/-- Whether a name is resolved in the same way in both scopes. -/
structure Scope.ResolvesAs (scope scope' : Scope) : Prop where
  builtins : ∀ name, scope'.declarations.builtins.contains name =
    scope.declarations.builtins.contains name
  functions : ∀ name, scope'.declarations.isFunction name = scope.declarations.isFunction name
  declaring : scope'.declaring = scope.declaring

/-- Inside the body of a function names are resolved in the same way still. -/
theorem Scope.ResolvesAs.inBody {scope scope' : Scope} (h : scope.ResolvesAs scope')
    (name : String) : Scope.ResolvesAs { scope with declaring := some name }
      { scope' with declaring := some name } :=
  ⟨h.builtins, h.functions, rfl⟩

namespace Reader

variable {α β α' β' : Type} {erase : α → α'} {erase' : β → β'}

/-- On a row without its positions the second reader comes to what the first one comes to on the
row, without the positions. -/
def Erases (erase : α → α') (reader : Reader α) (bare : Reader α') : Prop :=
  ∀ row : TokenRow, bare.run row.unplaced =
    ((reader.run row).map (Prod.map erase TokenRow.unplaced)).mapError (Fault.map .unplaced)

theorem erases_pure (value : α) : Erases erase (pure value) (pure (erase value)) :=
  fun _ ↦ rfl

theorem erases_fail (cause : ParseError.Cause) (token : Token) :
    Erases erase (fail cause token) (fail cause token.unplaced) :=
  fun _ ↦ rfl

theorem erases_tooDeep : Erases erase (throw .tooDeep) (throw .tooDeep) :=
  fun _ ↦ rfl

theorem erases_get : Erases TokenRow.unplaced get get :=
  fun _ ↦ rfl

/-- Both readers take the same branch. -/
theorem Erases.ite {condition condition' : Prop} [Decidable condition] [Decidable condition']
    {first second : Reader α} {bareFirst bareSecond : Reader α'}
    (hcondition : condition' ↔ condition) (hfirst : first.Erases erase bareFirst)
    (hsecond : second.Erases erase bareSecond) :
    (if condition then first else second).Erases erase
      (if condition' then bareFirst else bareSecond) := by
  by_cases h : condition
  · rw [if_pos h, if_pos (hcondition.mpr h)]
    exact hfirst
  · rw [if_neg h, if_neg (mt hcondition.mp h)]
    exact hsecond

theorem Erases.bind {reader : Reader α} {bare : Reader α'} {next : α → Reader β}
    {bareNext : α' → Reader β'} (h : reader.Erases erase bare)
    (hnext : ∀ value, (next value).Erases erase' (bareNext (erase value))) :
    (reader >>= next).Erases erase' (bare >>= bareNext) := by
  intro row
  have hrow := h row
  cases hrun : reader.run row with
  | error fault =>
    rw [hrun] at hrow
    rw [run_bind_of_error hrun, run_bind_of_error hrow]
    rfl
  | ok result =>
    obtain ⟨value, middle⟩ := result
    rw [hrun] at hrow
    rw [run_bind_of_ok hrun, run_bind_of_ok hrow]
    exact hnext value middle

/-! Readers of single tokens. -/

theorem erases_peek : peek.Erases Token.unplaced peek := by
  rintro ⟨rest, staged⟩
  cases rest <;> rfl

theorem erases_skip : skip.Erases id skip := by
  rintro ⟨rest, staged⟩
  cases rest <;> rfl

theorem erases_stage (declaration : Declaration) :
    (stage declaration).Erases id (stage declaration.unplaced) := by
  rintro ⟨rest, staged⟩
  rw [run_stage, run_stage, TokenRow.unplaced, ← List.map_singleton (f := Declaration.unplaced),
    ← List.map_append]
  rfl

theorem erases_next : next.Erases Token.unplaced next :=
  erases_peek.bind fun token ↦ erases_skip.bind fun _ ↦ erases_pure token

theorem erases_accept (kind : TokenKind) : (accept kind).Erases id (accept kind) :=
  erases_peek.bind fun _ ↦
    .ite .rfl (erases_skip.bind fun _ ↦ erases_pure true) (erases_pure false)

theorem erases_expect (kind : TokenKind) :
    (expect kind).Erases Token.unplaced (expect kind) :=
  erases_next.bind fun token ↦ .ite .rfl (erases_pure token) (erases_fail _ token)

theorem erases_expectEquals : expectEquals.Erases id expectEquals :=
  erases_next.bind fun token ↦ .ite .rfl (erases_pure ()) (erases_fail _ token)

theorem erases_acceptOperator (isOne : Operator → Bool) :
    (acceptOperator isOne).Erases (Option.map Token.unplaced) (acceptOperator isOne) :=
  erases_peek.bind fun token ↦
    .ite .rfl (erases_skip.bind fun _ ↦ erases_pure (some token)) (erases_pure none)

/-! Rows of operations and of items. -/

theorem erases_operationsWithin {isOne : Operator → Bool} {operand bare : Reader Expr}
    (h : operand.Erases Expr.unplaced bare) (bound : List Token) (left : Expr) :
    (operationsWithin isOne operand bound left).Erases Expr.unplaced
      (operationsWithin isOne bare (bound.map Token.unplaced) left.unplaced) := by
  induction bound generalizing left with
  | nil => exact erases_pure left
  | cons bounding bound ih =>
    refine (erases_acceptOperator isOne).bind fun found ↦ ?_
    cases found with
    | none => exact erases_pure left
    | some token => exact h.bind fun right ↦ ih _

theorem erases_operations {isOne : Operator → Bool} {operand bare : Reader Expr}
    (h : operand.Erases Expr.unplaced bare) :
    (operations isOne operand).Erases Expr.unplaced (operations isOne bare) :=
  h.bind fun first ↦ erases_get.bind fun row ↦ erases_operationsWithin h row.rest first

theorem erases_itemsWithin {close : TokenKind} {item : Reader α} {bare : Reader α'}
    (h : item.Erases erase bare) (bound : List Token) (started : Bool) :
    (itemsWithin close item bound started).Erases (List.map erase)
      (itemsWithin close bare (bound.map Token.unplaced) started) := by
  induction bound generalizing started with
  | nil => exact (erases_expect close).bind fun _ ↦ erases_pure []
  | cons bounding bound ih =>
    have hitem : Erases (List.map erase)
        (item >>= fun first ↦ itemsWithin close item bound true >>= fun others ↦
          pure (first :: others))
        (bare >>= fun first ↦ itemsWithin close bare (bound.map Token.unplaced) true >>=
          fun others ↦ pure (first :: others)) :=
      h.bind fun first ↦ (ih true).bind fun others ↦ erases_pure (first :: others)
    refine (erases_accept close).bind fun closed ↦ ?_
    cases closed with
    | true => exact erases_pure []
    | false =>
      cases started with
      | true => exact (erases_expect .comma).bind fun _ ↦ hitem
      | false => exact hitem

theorem erases_items {close : TokenKind} {item : Reader α} {bare : Reader α'}
    (h : item.Erases erase bare) : (items close item).Erases (List.map erase) (items close bare) :=
  erases_get.bind fun row ↦ erases_itemsWithin h row.rest false

/-! The forms of operands. -/

section Forms

variable {expr bare : Reader Expr}

theorem erases_call (h : expr.Erases Expr.unplaced bare) {scope scope' : Scope}
    (hscope : scope.ResolvesAs scope') (name : Token) :
    (call expr scope name).Erases Expr.unplaced (call bare scope' name.unplaced) := by
  refine erases_skip.bind fun _ ↦ (erases_items h).bind fun args ↦ ?_
  rw [← unplacedArgs_eq_map]
  refine .ite (by rw [hscope.builtins]; rfl)
    (erases_pure (Expr.builtinCall name.pos name.text args)) ?_
  exact .ite (by rw [hscope.functions, hscope.declaring]; rfl)
    (erases_pure (Expr.userCall name.pos name.text args)) (erases_fail _ name)

theorem erases_binding (h : expr.Erases Expr.unplaced bare) :
    (binding expr).Erases (Prod.map id Expr.unplaced) (binding bare) :=
  (erases_expect _).bind fun name ↦ erases_expectEquals.bind fun _ ↦ h.bind fun value ↦
    erases_pure (name.text, value)

theorem erases_letForm (h : expr.Erases Expr.unplaced bare) (pos : Pos) :
    (letForm expr pos).Erases Expr.unplaced (letForm bare .unknown) := by
  refine (erases_accept _).bind fun grouped ↦ ?_
  cases grouped with
  | true =>
    refine (erases_expect _).bind fun _ ↦ (erases_items (erases_binding h)).bind fun bindings ↦
      (erases_expect _).bind fun _ ↦ h.bind fun body ↦ ?_
    rw [← unplacedBindings_eq_map]
    exact erases_pure (Expr.letGroup pos bindings body)
  | false =>
    exact (erases_binding h).bind fun bound ↦ (erases_expect _).bind fun _ ↦ h.bind fun body ↦
      erases_pure (Expr.letIn pos bound.1 bound.2 body)

theorem erases_ifForm (h : expr.Erases Expr.unplaced bare) (pos : Pos) :
    (ifForm expr pos).Erases Expr.unplaced (ifForm bare .unknown) :=
  (erases_expect _).bind fun _ ↦ h.bind fun left ↦ (erases_expect _).bind fun comparison ↦
    h.bind fun right ↦ (erases_expect _).bind fun _ ↦ (erases_expect _).bind fun _ ↦
      h.bind fun thenBranch ↦ (erases_expect _).bind fun _ ↦ h.bind fun elseBranch ↦
        erases_pure (Expr.ifThenElse pos
          (.binary comparison.pos (.ofText comparison.text) left right) thenBranch elseBranch)

theorem firstRepeated?_unplaced (names : List String) (tokens : List Token) :
    firstRepeated? names (tokens.map Token.unplaced) =
      (firstRepeated? names tokens).map Token.unplaced := by
  induction tokens generalizing names with
  | nil => rfl
  | cons token tokens ih =>
    rw [List.map_cons, firstRepeated?, firstRepeated?, Token.unplaced]
    split
    · rfl
    · exact ih _

theorem erases_parameters (function : String) :
    (parameters function).Erases id (parameters function) := by
  refine erases_get.bind fun row ↦ ?_
  have htake : row.unplaced.rest.takeWhile (·.kind = TokenKind.parameter) =
      (row.rest.takeWhile (·.kind = TokenKind.parameter)).map Token.unplaced :=
    List.takeWhile_map
  have hdrop : row.unplaced.rest.dropWhile (·.kind = TokenKind.parameter) =
      (row.rest.dropWhile (·.kind = TokenKind.parameter)).map Token.unplaced :=
    List.dropWhile_map
  dsimp only
  rw [htake, hdrop, firstRepeated?_unplaced, List.map_map]
  cases firstRepeated? [] (row.rest.takeWhile (·.kind = TokenKind.parameter)) with
  | none => exact fun _ ↦ rfl
  | some token => exact erases_fail _ token

theorem erases_constForm (h : expr.Erases Expr.unplaced bare) (pos : Pos) :
    (constForm expr pos).Erases Expr.unplaced (constForm bare .unknown) :=
  (erases_binding h).bind fun bound ↦ (erases_stage (.constant bound.1 bound.2)).bind fun _ ↦
    erases_pure (Expr.endMarker pos)

theorem erases_printForm (h : expr.Erases Expr.unplaced bare) (pos : Pos) :
    (printForm expr pos).Erases Expr.unplaced (printForm bare .unknown) :=
  (erases_expect _).bind fun _ ↦ h.bind fun _ ↦ (erases_expect _).bind fun _ ↦
    erases_pure (Expr.endMarker pos)

end Forms

section Operands

variable {expr bare : Scope → Reader Expr} {scope scope' : Scope}

theorem erases_functionForm
    (h : ∀ {scope scope'}, scope.ResolvesAs scope' →
      (expr scope).Erases Expr.unplaced (bare scope'))
    (hscope : scope.ResolvesAs scope') (pos : Pos) :
    (functionForm expr scope pos).Erases Expr.unplaced (functionForm bare scope' .unknown) := by
  refine (erases_expect _).bind fun name ↦ erases_get.bind fun row ↦ ?_
  have hstaged : (row.unplaced.staged.any (·.declaresFunction name.text)) =
      row.staged.any (·.declaresFunction name.text) := by
    rw [TokenRow.unplaced, List.any_map]
    exact congrArg (List.any row.staged ·)
      (funext fun declaration ↦ declaration.declaresFunction_unplaced name.text)
  refine .ite (by rw [hscope.functions, ← hstaged]; rfl) (erases_fail _ name) ?_
  exact (erases_parameters _).bind fun parameters ↦ (erases_expect _).bind fun _ ↦
    (h (hscope.inBody name.text)).bind fun body ↦
      (erases_stage (.function ⟨pos, name.text, parameters, body⟩)).bind fun _ ↦
        erases_pure (Expr.endMarker pos)

theorem erases_operand {negated bareNegated : Reader Expr}
    (h : ∀ {scope scope'}, scope.ResolvesAs scope' →
      (expr scope).Erases Expr.unplaced (bare scope'))
    (hnegated : negated.Erases Expr.unplaced bareNegated) (hscope : scope.ResolvesAs scope') :
    (operand expr negated scope).Erases Expr.unplaced (operand bare bareNegated scope') := by
  refine erases_next.bind fun token ↦ ?_
  dsimp only [Token.unplaced]
  split
  · exact (h hscope).bind fun inner ↦ (erases_expect _).bind fun _ ↦ erases_pure inner
  · refine .ite .rfl (hnegated.bind fun right ↦ ?_) (erases_fail _ token)
    exact erases_pure (Expr.binary token.pos .sub (.literal token.pos (.number 0.0)) right)
  · split
    · next x _ => exact erases_pure (Expr.literal token.pos (.number x))
    · exact erases_fail _ token
  · exact erases_pure (Expr.literal token.pos (.text token.text))
  · exact erases_peek.bind fun _ ↦ .ite .rfl (erases_call (h hscope) hscope token)
      (erases_pure (Expr.access token.pos token.text))
  · exact erases_letForm (h hscope) token.pos
  · exact erases_ifForm (h hscope) token.pos
  · exact erases_functionForm h hscope token.pos
  · exact erases_constForm (h hscope) token.pos
  · exact erases_printForm (h hscope) token.pos
  · exact erases_fail _ token

/-- Expressions of every level are read without a look at positions. -/
theorem erases_expression (depth : Nat) (level : Level) {scope scope' : Scope}
    (hscope : scope.ResolvesAs scope') :
    (expression depth level scope).Erases Expr.unplaced (expression depth level scope') := by
  induction depth generalizing level scope scope' with
  | zero => exact erases_tooDeep
  | succ depth ih =>
    cases level with
    | sum => exact erases_operations (ih .product hscope)
    | product => exact erases_operations (ih .power hscope)
    | power => exact erases_operations (ih .operand hscope)
    | operand => exact erases_operand (fun hinner ↦ ih .sum hinner) (ih .operand hscope) hscope

end Operands

end Reader

/-- Taking away the positions of the tokens takes away those of the statement, or of the error, and
changes nothing else; neither does it matter which positions there are among the declarations. -/
theorem Statement.ofTokens_unplaced {declarations declarations' : Declarations}
    (h : declarations.SameUpToPlaces declarations') (limit : Nat) (tokens : List Token) :
    ofTokens limit declarations' (tokens.map Token.unplaced) =
      ((ofTokens limit declarations tokens).map unplaced).mapError (Fault.map .unplaced) := by
  have hscope : Scope.ResolvesAs ⟨declarations, none⟩ ⟨declarations', none⟩ :=
    ⟨fun name ↦ (h.contains_builtins name).symm, fun name ↦ (h.isFunction name).symm, rfl⟩
  have hreader : (reader limit declarations).Erases unplaced (reader limit declarations') :=
    (Reader.erases_expression limit .sum hscope).bind fun expr ↦
      (Reader.erases_accept .semicolon).bind fun _ ↦ Reader.erases_peek.bind fun token ↦
        .ite .rfl
          (Reader.erases_get.bind fun row ↦ Reader.erases_pure (Statement.mk expr row.staged))
          (Reader.erases_fail .afterStatement token)
  have hrow : (reader limit declarations').run ⟨tokens.map Token.unplaced, []⟩ = _ :=
    hreader ⟨tokens, []⟩
  rw [ofTokens, ofTokens, hrow]
  cases (reader limit declarations).run ⟨tokens, []⟩ <;> rfl

/-- Whether two stages end alike: both with results that match, both with errors that match, or
both at the limit on nesting. -/
def EndAlike {ε α : Type} (result : α → α → Prop) (error : ε → ε → Prop) :
    Except (Fault ε) α → Except (Fault ε) α → Prop
  | .ok value, .ok value' => result value value'
  | .error (.error found), .error (.error found') => error found found'
  | .error .tooDeep, .error .tooDeep => True
  | _, _ => False

/-- Stages whose outcomes become the same by some changes have ended alike. -/
theorem endAlike_of_eq {ε ε' α β : Type} {change : α → β} {changeError : ε → ε'}
    {outcome outcome' : Except (Fault ε) α}
    (h : (outcome.map change).mapError (Fault.map changeError) =
      (outcome'.map change).mapError (Fault.map changeError)) :
    EndAlike (fun value value' ↦ change value = change value')
      (fun found found' ↦ changeError found = changeError found') outcome outcome' := by
  cases outcome with
  | ok value =>
    cases outcome' with
    | ok value' => exact Except.ok.inj h
    | error fault' => cases h
  | error fault =>
    cases outcome' with
    | ok value' => cases h
    | error fault' =>
      have hfault := Except.error.inj h
      cases fault with
      | error found =>
        cases fault' with
        | error found' => exact Fault.error.inj hfault
        | tooDeep => cases hfault
      | tooDeep =>
        cases fault' with
        | error found' => cases hfault
        | tooDeep => trivial

theorem endAlike_of_mapError_eq {ε ε' α : Type} {changeError : ε → ε'}
    {outcome outcome' : Except (Fault ε) α}
    (h : outcome.mapError (Fault.map changeError) = outcome'.mapError (Fault.map changeError)) :
    EndAlike (fun value value' ↦ value = value')
      (fun found found' ↦ changeError found = changeError found') outcome outcome' := by
  have herased : (outcome.map id).mapError (Fault.map changeError) =
      (outcome'.map id).mapError (Fault.map changeError) := by
    rw [Except.map_id]
    exact h
  exact endAlike_of_eq herased

theorem EndAlike.imp {ε α : Type} {result result' : α → α → Prop} {error error' : ε → ε → Prop}
    {outcome outcome' : Except (Fault ε) α} (h : EndAlike result error outcome outcome')
    (hresult : ∀ value value', result value value' → result' value value')
    (herror : ∀ found found', error found found' → error' found found') :
    EndAlike result' error' outcome outcome' := by
  match outcome, outcome', h with
  | .ok _, .ok _, h => exact hresult _ _ h
  | .error (.error _), .error (.error _), h => exact herror _ _ h
  | .error .tooDeep, .error .tooDeep, _ => trivial

/-- Token rows that differ in positions only form statements that differ in positions only, or
show the same error at tokens of the same kind, or nest too deeply both. -/
theorem Statement.endAlike_ofTokens {declarations declarations' : Declarations}
    (h : declarations.SameUpToPlaces declarations') (limit : Nat) {tokens tokens' : List Token}
    (htokens : tokens.map Token.unplaced = tokens'.map Token.unplaced) :
    EndAlike (fun statement statement' ↦ statement.unplaced = statement'.unplaced)
      (fun error error' ↦ error.unplaced = error'.unplaced)
      (ofTokens limit declarations tokens) (ofTokens limit declarations' tokens') := by
  refine endAlike_of_eq ?_
  rw [← ofTokens_unplaced h, htokens, ← ofTokens_unplaced (.refl declarations')]

/-- The message without its position depends on no position. -/
theorem ParseError.detail_unplaced (error : ParseError) : error.unplaced.detail = error.detail :=
  rfl

end Reckoner
