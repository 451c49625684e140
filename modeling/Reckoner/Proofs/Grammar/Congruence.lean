import Reckoner.Proofs.Grammar.Reading

/-!
Ways for readers to be alike. A relation that holds between each reader of single tokens and
itself, and that is kept by doing one thing after another, is kept by all loops and forms: with
readers inside them that are alike they are alike.
-/

set_option autoImplicit false
set_option relaxedAutoImplicit false

namespace Reckoner

namespace Reader

variable {α β : Type}

/-- The reader takes tokens off the front of a row and nothing else, and has no limit. -/
structure Plain (reader : Reader α) : Prop where
  suffix : ∀ row value after, reader.run row = .ok (value, after) → after.rest <:+ row.rest
  shallow : ∀ row, reader.run row ≠ .error .tooDeep

theorem Plain.bind {reader : Reader α} {next : α → Reader β} (h : reader.Plain)
    (hnext : ∀ value, (next value).Plain) : (reader >>= next).Plain where
  suffix row value after hrun := by
    obtain ⟨first, middle, hfirst, hsecond⟩ := run_bind_eq_ok.mp hrun
    exact ((hnext first).suffix _ _ _ hsecond).trans (h.suffix _ _ _ hfirst)
  shallow row := by
    cases hrun : reader.run row with
    | error fault =>
      rw [run_bind_of_error hrun]
      rintro hdeep
      cases hdeep
      exact h.shallow row hrun
    | ok result =>
      rw [run_bind_of_ok hrun]
      exact (hnext _).shallow _

/-- A reader that succeeds on every row. -/
theorem plain_of_run_eq_ok {reader : Reader α} {value : TokenRow → α} {after : TokenRow → TokenRow}
    (hrun : ∀ row, reader.run row = .ok (value row, after row))
    (hafter : ∀ row, (after row).rest <:+ row.rest) : reader.Plain where
  suffix row found behind h := by
    rw [hrun] at h
    cases h
    exact hafter row
  shallow row hdeep := by
    rw [hrun] at hdeep
    cases hdeep

theorem plain_pure (value : α) : (pure value : Reader α).Plain :=
  plain_of_run_eq_ok (run_pure value) fun _ ↦ List.suffix_rfl

theorem plain_fail (cause : ParseError.Cause) (token : Token) :
    (fail cause token : Reader α).Plain where
  suffix _ _ _ h := by cases h
  shallow _ h := by cases h

theorem plain_get : (get : Reader TokenRow).Plain :=
  plain_of_run_eq_ok run_get fun _ ↦ List.suffix_rfl

theorem plain_peek : peek.Plain :=
  plain_of_run_eq_ok run_peek fun _ ↦ List.suffix_rfl

theorem plain_skip : skip.Plain :=
  plain_of_run_eq_ok (fun _ ↦ rfl) fun row ↦ List.tail_suffix row.rest

theorem plain_stage (declaration : Declaration) : (stage declaration).Plain :=
  plain_of_run_eq_ok (run_stage declaration) fun _ ↦ List.suffix_rfl

theorem plain_next : next.Plain :=
  plain_of_run_eq_ok run_next fun row ↦ List.tail_suffix row.rest

theorem plain_accept (kind : TokenKind) : (accept kind).Plain := by
  refine plain_peek.bind fun token ↦ ?_
  split
  · exact plain_skip.bind fun _ ↦ plain_pure true
  · exact plain_pure false

theorem plain_expect (kind : TokenKind) : (expect kind).Plain := by
  refine plain_next.bind fun token ↦ ?_
  split
  · exact plain_pure token
  · exact plain_fail ..

theorem plain_expectEquals : expectEquals.Plain := by
  refine plain_next.bind fun token ↦ ?_
  split
  · exact plain_pure ()
  · exact plain_fail ..

theorem plain_acceptOperator (isOne : Operator → Bool) : (acceptOperator isOne).Plain := by
  refine plain_peek.bind fun token ↦ ?_
  split
  · exact plain_skip.bind fun _ ↦ plain_pure (some token)
  · exact plain_pure none

theorem plain_parameters (function : String) : (parameters function).Plain where
  suffix row names after h := by
    obtain ⟨tokens, -, -, rfl⟩ := parameters_eq_ok h
    exact List.suffix_append ..
  shallow row := by
    rw [parameters, run_bind_of_ok (run_get row)]
    dsimp only
    split <;> exact nofun

/-- A relation between readers that is kept by doing one thing after another. -/
structure Congruence (R : (α : Type) → Reader α → Reader α → Prop) : Prop where
  plain : ∀ {α : Type} {reader : Reader α}, reader.Plain → R α reader reader
  bind : ∀ {α β : Type} {reader other : Reader α} {next next' : α → Reader β},
    R α reader other → (∀ value, R β (next value) (next' value)) →
      R β (reader >>= next) (other >>= next')

namespace Congruence

variable {R : (α : Type) → Reader α → Reader α → Prop} {expr expr' : Reader Expr}

theorem pure (hR : Congruence R) (value : α) : R α (pure value) (pure value) :=
  hR.plain (plain_pure value)

/-- A step that is the same for both readers. -/
theorem step (hR : Congruence R) {reader : Reader α} (h : reader.Plain)
    {next next' : α → Reader β} (hnext : ∀ value, R β (next value) (next' value)) :
    R β (reader >>= next) (reader >>= next') :=
  hR.bind (hR.plain h) hnext

theorem operationsWithin (hR : Congruence R) {isOne : Operator → Bool} (h : R Expr expr expr')
    (bound : List Token) (left : Expr) :
    R Expr (operationsWithin isOne expr bound left) (operationsWithin isOne expr' bound left) := by
  induction bound generalizing left with
  | nil => exact hR.pure left
  | cons bounding bound ih =>
    refine hR.step (plain_acceptOperator isOne) fun found ↦ ?_
    cases found with
    | none => exact hR.pure left
    | some token => exact hR.bind h fun right ↦ ih _

theorem operations (hR : Congruence R) {isOne : Operator → Bool} (h : R Expr expr expr') :
    R Expr (operations isOne expr) (operations isOne expr') :=
  hR.bind h fun first ↦ hR.step plain_get fun row ↦ hR.operationsWithin h row.rest first

theorem itemsWithin (hR : Congruence R) {close : TokenKind} {item item' : Reader α}
    (h : R α item item') (bound : List Token) (started : Bool) :
    R (List α) (itemsWithin close item bound started) (itemsWithin close item' bound started) := by
  induction bound generalizing started with
  | nil => exact hR.step (plain_expect close) fun _ ↦ hR.pure []
  | cons bounding bound ih =>
    have hitem : R (List α)
        (item >>= fun first ↦ Reader.itemsWithin close item bound true >>= fun others ↦
          Pure.pure (first :: others))
        (item' >>= fun first ↦ Reader.itemsWithin close item' bound true >>= fun others ↦
          Pure.pure (first :: others)) :=
      hR.bind h fun first ↦ hR.bind (ih true) fun others ↦ hR.pure (first :: others)
    refine hR.step (plain_accept close) fun closed ↦ ?_
    cases closed with
    | true => exact hR.pure []
    | false =>
      cases started with
      | true => exact hR.step (plain_expect .comma) fun _ ↦ hitem
      | false => exact hitem

theorem items (hR : Congruence R) {close : TokenKind} {item item' : Reader α}
    (h : R α item item') : R (List α) (items close item) (items close item') :=
  hR.step plain_get fun row ↦ hR.itemsWithin h row.rest false

theorem call (hR : Congruence R) (h : R Expr expr expr') (scope : Scope) (name : Token) :
    R Expr (call expr scope name) (call expr' scope name) := by
  refine hR.step plain_skip fun _ ↦ hR.bind (hR.items h) fun args ↦ ?_
  split
  · exact hR.pure _
  · split
    · exact hR.pure _
    · exact hR.plain (plain_fail ..)

theorem binding (hR : Congruence R) (h : R Expr expr expr') :
    R (String × Expr) (binding expr) (binding expr') :=
  hR.step (plain_expect .identifier) fun _ ↦ hR.step plain_expectEquals fun _ ↦
    hR.bind h fun _ ↦ hR.pure _

theorem letForm (hR : Congruence R) (h : R Expr expr expr') (pos : Pos) :
    R Expr (letForm expr pos) (letForm expr' pos) := by
  refine hR.step (plain_accept .singleArrow) fun grouped ↦ ?_
  cases grouped with
  | true =>
    exact hR.step (plain_expect .leftBrace) fun _ ↦ hR.bind (hR.items (hR.binding h)) fun _ ↦
      hR.step (plain_expect .inWord) fun _ ↦ hR.bind h fun _ ↦ hR.pure _
  | false =>
    exact hR.bind (hR.binding h) fun _ ↦ hR.step (plain_expect .inWord) fun _ ↦
      hR.bind h fun _ ↦ hR.pure _

theorem ifForm (hR : Congruence R) (h : R Expr expr expr') (pos : Pos) :
    R Expr (ifForm expr pos) (ifForm expr' pos) :=
  hR.step (plain_expect .leftParen) fun _ ↦ hR.bind h fun _ ↦
    hR.step (plain_expect .comparison) fun _ ↦ hR.bind h fun _ ↦
      hR.step (plain_expect .rightParen) fun _ ↦ hR.step (plain_expect .thenWord) fun _ ↦
        hR.bind h fun _ ↦ hR.step (plain_expect .elseWord) fun _ ↦
          hR.bind h fun _ ↦ hR.pure _

theorem functionForm (hR : Congruence R) {expr expr' : Scope → Reader Expr}
    (h : ∀ scope, R Expr (expr scope) (expr' scope)) (scope : Scope) (pos : Pos) :
    R Expr (functionForm expr scope pos) (functionForm expr' scope pos) := by
  refine hR.step (plain_expect .functionName) fun name ↦ hR.step plain_get fun row ↦ ?_
  split
  · exact hR.plain (plain_fail ..)
  · exact hR.step (plain_parameters _) fun _ ↦ hR.step (plain_expect .doubleArrow) fun _ ↦
      hR.bind (h _) fun _ ↦ hR.step (plain_stage _) fun _ ↦ hR.pure _

theorem constForm (hR : Congruence R) (h : R Expr expr expr') (pos : Pos) :
    R Expr (constForm expr pos) (constForm expr' pos) :=
  hR.bind (hR.binding h) fun _ ↦ hR.step (plain_stage _) fun _ ↦ hR.pure _

theorem printForm (hR : Congruence R) (h : R Expr expr expr') (pos : Pos) :
    R Expr (printForm expr pos) (printForm expr' pos) :=
  hR.step (plain_expect .leftParen) fun _ ↦ hR.bind h fun _ ↦
    hR.step (plain_expect .rightParen) fun _ ↦ hR.pure _

theorem operand (hR : Congruence R) {expr expr' : Scope → Reader Expr}
    {negated negated' : Reader Expr} (h : ∀ scope, R Expr (expr scope) (expr' scope))
    (hnegated : R Expr negated negated') (scope : Scope) :
    R Expr (operand expr negated scope) (operand expr' negated' scope) := by
  refine hR.step plain_next fun token ↦ ?_
  split
  · exact hR.bind (h scope) fun _ ↦ hR.step (plain_expect .rightParen) fun _ ↦ hR.pure _
  · split
    · exact hR.bind hnegated fun _ ↦ hR.pure _
    · exact hR.plain (plain_fail ..)
  · split
    · exact hR.pure _
    · exact hR.plain (plain_fail ..)
  · exact hR.pure _
  · refine hR.step plain_peek fun following ↦ ?_
    split
    · exact hR.call (h scope) scope token
    · exact hR.pure _
  · exact hR.letForm (h scope) token.pos
  · exact hR.ifForm (h scope) token.pos
  · exact hR.functionForm h scope token.pos
  · exact hR.constForm (h scope) token.pos
  · exact hR.printForm (h scope) token.pos
  · exact hR.plain (plain_fail ..)

end Congruence

end Reader

end Reckoner
