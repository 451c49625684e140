import Reckoner.Proofs.Grammar.Backup

/-!
Progress of the reading. Whatever is read takes tokens, and no end mark, so that loops end by
themselves, a token can be put back wherever one has been taken, and the nesting that is needed is
bounded by the number of tokens.
-/

set_option autoImplicit false
set_option relaxedAutoImplicit false

namespace Reckoner

/-- The second row is what is left of the first one without some of its tokens, at least one of
them, and none of them an end mark. -/
def TokenRow.AdvancesTo (row after : TokenRow) : Prop :=
  ∃ taken, row.rest = taken ++ after.rest ∧ taken ≠ [] ∧ ∀ token ∈ taken, token.kind ≠ .eof

theorem TokenRow.AdvancesTo.length_lt {row after : TokenRow} (h : row.AdvancesTo after) :
    after.rest.length < row.rest.length := by
  obtain ⟨taken, hrow, htaken, -⟩ := h
  have hpos := List.length_pos_iff.mpr htaken
  rw [hrow, List.length_append]
  omega

/-- An end mark that was ahead is still ahead. -/
theorem TokenRow.AdvancesTo.ended {row after : TokenRow} (h : row.AdvancesTo after)
    (hrow : ∃ token ∈ row.rest, token.kind = .eof) : ∃ token ∈ after.rest, token.kind = .eof := by
  obtain ⟨taken, hrest, -, hkind⟩ := h
  obtain ⟨token, htoken, heof⟩ := hrow
  rw [hrest, List.mem_append] at htoken
  exact ⟨token, htoken.resolve_left fun hmem ↦ hkind token hmem heof, heof⟩

/-- One more token in front, which is no end mark. -/
theorem TokenRow.AdvancesTo.cons {token : Token} {rest : List Token}
    {staged staged' : List Declaration} {after : TokenRow} (htoken : token.kind ≠ .eof)
    (h : AdvancesTo ⟨rest, staged⟩ after) : AdvancesTo ⟨token :: rest, staged'⟩ after := by
  obtain ⟨taken, hrest, -, hkind⟩ := h
  exact ⟨token :: taken, congrArg (token :: ·) hrest, List.cons_ne_nil _ _,
    List.forall_mem_cons.mpr ⟨htoken, hkind⟩⟩

theorem TokenRow.advancesTo_cons {token : Token} (htoken : token.kind ≠ .eof) (rest : List Token)
    (staged staged' : List Declaration) : AdvancesTo ⟨token :: rest, staged⟩ ⟨rest, staged'⟩ :=
  ⟨[token], rfl, List.cons_ne_nil _ _, List.forall_mem_singleton.mpr htoken⟩

/-- The tokens of a tree are taken. -/
theorem ParseTree.Fits.advancesTo {phrase : Phrase} {tree : ParseTree phrase} {scope : Scope}
    {row after : TokenRow} (h : tree.Fits scope row after) (htree : tree.tokens ≠ []) :
    row.AdvancesTo after :=
  ⟨tree.tokens, h.tokens, htree, fun _ ↦ tree.kind_ne_eof⟩

namespace Reader

variable {α : Type}

/-- Whenever the reader reads something it takes tokens, and no end mark. -/
def Advances (reader : Reader α) : Prop :=
  ∀ row value after, reader.run row = .ok (value, after) → row.AdvancesTo after

theorem advances_expression (depth : Nat) (level : Level) (scope : Scope) :
    (expression depth level scope).Advances := by
  intro row value after h
  obtain ⟨tree, -, hfits, -⟩ := sound_expression depth level scope row value after h
  exact hfits.advancesTo tree.tokens_ne_nil

theorem advances_binding (depth : Nat) (scope : Scope) :
    (binding (expression depth .sum scope)).Advances := by
  intro row value after h
  obtain ⟨tree, -, hfits, -⟩ := sound_binding (sound_expression depth .sum scope) row value after h
  refine hfits.advancesTo ?_
  cases tree with
  | binding name sign bound => exact List.cons_ne_nil _ _

/-- A form whose words have trees advances. -/
theorem advances_worded {scope : Scope} {depth : Nat} {word : TokenKind} {form : Pos → Reader Expr}
    (hword : word ≠ .eof)
    (hsound : ∀ (token : TokenOf word) {row after : TokenRow} {value : Expr},
      (form token.val.pos).run row = .ok (value, after) →
        ∃ tree : ParseTree (.expression .operand), tree.value scope.declarations.builtins = value ∧
          tree.Fits scope ⟨token.val :: row.rest, row.staged⟩ after ∧ tree.nesting ≤ depth) :
    (worded word form).Advances := by
  intro row value after h
  rw [worded, run_bind_eq_ok] at h
  obtain ⟨token, middle, htoken, h⟩ := h
  obtain ⟨hkind, rfl⟩ := (expect_eq_ok hword).mp htoken
  obtain ⟨tree, -, hfits, -⟩ := hsound ⟨token, hkind⟩ h
  exact hfits.advancesTo tree.tokens_ne_nil

/-- The token that closes a row of items is taken with them. -/
theorem advances_items {scope : Scope} {depth : Nat} {item : Phrase} {close : TokenKind}
    (hclose : close ≠ .eof) {reader : Reader item.Value} (hitem : Sound scope depth item reader) :
    (items close reader).Advances := by
  intro row values after h
  obtain ⟨tree, closing, -, hfits, -⟩ := sound_items hclose hitem h
  refine ⟨tree.tokens ++ [closing.val], ?_, List.append_ne_nil_of_right_ne_nil _ (by simp), ?_⟩
  · rw [hfits.tokens, List.append_assoc]
    rfl
  · intro token htoken
    rcases List.mem_append.mp htoken with hmem | hmem
    · exact tree.kind_ne_eof hmem
    · rw [List.mem_singleton.mp hmem, closing.property]
      exact hclose

/-- Behind the name of a call the parenthesis is taken, and what it opens. -/
theorem advances_call {depth : Nat} {scope : Scope} {name opening : Token} {rest : List Token}
    {staged : List Declaration} {value : Expr} {after : TokenRow}
    (hopening : opening.kind = .leftParen)
    (h : (call (expression depth .sum scope) scope name).run ⟨opening :: rest, staged⟩ =
      .ok (value, after)) : TokenRow.AdvancesTo ⟨opening :: rest, staged⟩ after := by
  rw [call, run_bind_of_ok (run_skip ..), run_bind_eq_ok] at h
  obtain ⟨args, middle, hargs, h⟩ := h
  have hrest := advances_items (by decide) (sound_expression depth .sum scope) _ _ _ hargs
  have hafter : middle = after := by
    split at h
    · exact (run_pure_eq_ok.mp h).2
    · split at h
      · exact (run_pure_eq_ok.mp h).2
      · cases h
  exact hafter ▸ hrest.cons (by rw [hopening]; decide)

/-! ### Rounds of loops -/

/-- One round of reading items. It ends the loop if it comes upon the closing token. -/
def itemRound (close : TokenKind) (item : Reader α) (started : Bool) : Reader (Option α) := do
  if ← accept close then
    return none
  else
    if started then
      let _ ← expect .comma
    let found ← item
    return some found

theorem itemsWithin_cons (close : TokenKind) (item : Reader α) (bounding : Token)
    (bound : List Token) (started : Bool) :
    itemsWithin close item (bounding :: bound) started = (do
      match ← itemRound close item started with
      | none => return []
      | some first =>
        let others ← itemsWithin close item bound true
        return first :: others) := by
  simp only [itemRound, bind_assoc]
  rw [itemsWithin]
  congr 1
  funext closed
  cases closed with
  | true => simp
  | false => cases started <;> simp

/-- Every round takes tokens, the last one the closing token. -/
theorem advances_itemRound {close : TokenKind} (hclose : close ≠ .eof) {item : Reader α}
    (hitem : item.Advances) (started : Bool) : (itemRound close item started).Advances := by
  intro row found after h
  rw [itemRound, run_bind_eq_ok] at h
  obtain ⟨closed, middle, hclosed, h⟩ := h
  cases closed with
  | true =>
    obtain ⟨closing, rfl⟩ := accept_eq_true hclose hclosed
    obtain ⟨-, rfl⟩ := run_pure_eq_ok.mp h
    exact TokenRow.advancesTo_cons (by rw [closing.property]; exact hclose) ..
  | false =>
    obtain ⟨rfl, -⟩ := accept_eq_false hclosed
    have hfound {row : TokenRow} (h : (do let found ← item; return some found).run row =
        .ok (found, after)) : row.AdvancesTo after := by
      rw [run_bind_eq_ok] at h
      obtain ⟨value, behind, hvalue, h⟩ := h
      obtain ⟨-, rfl⟩ := run_pure_eq_ok.mp h
      exact hitem _ _ _ hvalue
    cases started with
    | true =>
      simp only [Bool.false_eq_true, if_false, if_true] at h
      rw [run_bind_eq_ok] at h
      obtain ⟨comma, behindComma, hcomma, h⟩ := h
      obtain ⟨hkind, rfl⟩ := (expect_eq_ok (by decide)).mp hcomma
      exact (hfound h).cons (by rw [hkind]; decide)
    | false =>
      simp only [Bool.false_eq_true, if_false] at h
      exact hfound h

/-- One round of reading operations. It ends the loop if there is no operator. -/
def operationRound (isOne : Operator → Bool) (operand : Reader Expr) :
    Reader (Option (Token × Expr)) := do
  match ← acceptOperator isOne with
  | none => return none
  | some token =>
    let right ← operand
    return some (token, right)

theorem operationsWithin_cons (isOne : Operator → Bool) (operand : Reader Expr) (bounding : Token)
    (bound : List Token) (left : Expr) :
    operationsWithin isOne operand (bounding :: bound) left = (do
      match ← operationRound isOne operand with
      | none => return left
      | some (token, right) =>
        operationsWithin isOne operand bound
          (.binary token.pos (.ofText token.text) left right)) := by
  simp only [operationRound, bind_assoc]
  rw [operationsWithin]
  congr 1
  funext found
  cases found <;> simp

/-- Every round that does not end the loop takes tokens. -/
theorem advances_operationRound {level : Level} {operand : Reader Expr}
    (hoperand : operand.Advances) {row after : TokenRow} {found : Token × Expr}
    (h : (operationRound level.joins operand).run row = .ok (some found, after)) :
    row.AdvancesTo after := by
  rw [operationRound, run_bind_eq_ok] at h
  obtain ⟨accepted, middle, haccepted, h⟩ := h
  cases accepted with
  | none => cases h
  | some token =>
    obtain ⟨sign, rfl, rfl⟩ := acceptOperator_eq_some haccepted
    rw [run_bind_eq_ok] at h
    obtain ⟨right, behind, hright, h⟩ := h
    obtain ⟨-, rfl⟩ := run_pure_eq_ok.mp h
    exact (hoperand _ _ _ hright).cons (by rw [sign.property.1]; decide)

/-- A loop over items ends by itself in front of an end mark. No bound on its rounds makes a
difference that is at least the number of tokens. -/
theorem itemsWithin_bound {close : TokenKind} (hclose : close ≠ .eof) {item : Reader α}
    (hitem : item.Advances) {row : TokenRow} (hrow : ∃ token ∈ row.rest, token.kind = .eof)
    {bound bound' : List Token} (hbound : row.rest.length ≤ bound.length)
    (hbound' : row.rest.length ≤ bound'.length) (started : Bool) :
    (itemsWithin close item bound started).run row =
      (itemsWithin close item bound' started).run row := by
  have hpos : 0 < row.rest.length := List.length_pos_of_mem hrow.choose_spec.1
  induction bound generalizing row bound' started with
  | nil => exact absurd (Nat.lt_of_lt_of_le hpos hbound) (Nat.lt_irrefl 0)
  | cons bounding bound ih =>
    cases bound' with
    | nil => exact absurd (Nat.lt_of_lt_of_le hpos hbound') (Nat.lt_irrefl 0)
    | cons bounding' bound' =>
      rw [itemsWithin_cons, itemsWithin_cons]
      cases hround : (itemRound close item started).run row with
      | error fault => rw [run_bind_of_error hround, run_bind_of_error hround]
      | ok result =>
        obtain ⟨found, after⟩ := result
        rw [run_bind_of_ok hround, run_bind_of_ok hround]
        cases found with
        | none => rfl
        | some first =>
          have hafter := advances_itemRound hclose hitem started _ _ _ hround
          have hlength := hafter.length_lt
          have hended := hafter.ended hrow
          simp only [List.length_cons] at hbound hbound'
          have hmore : (itemsWithin close item bound true).run after =
              (itemsWithin close item bound' true).run after :=
            ih hended (by omega) (by omega) true (List.length_pos_of_mem hended.choose_spec.1)
          rw [StateT.run_bind, StateT.run_bind, hmore]

/-- A loop over operations ends by itself in front of an end mark. -/
theorem operationsWithin_bound {level : Level} {operand : Reader Expr}
    (hoperand : operand.Advances) {row : TokenRow} (hrow : ∃ token ∈ row.rest, token.kind = .eof)
    {bound bound' : List Token} (hbound : row.rest.length ≤ bound.length)
    (hbound' : row.rest.length ≤ bound'.length) (left : Expr) :
    (operationsWithin level.joins operand bound left).run row =
      (operationsWithin level.joins operand bound' left).run row := by
  have hpos : 0 < row.rest.length := List.length_pos_of_mem hrow.choose_spec.1
  induction bound generalizing row bound' left with
  | nil => exact absurd (Nat.lt_of_lt_of_le hpos hbound) (Nat.lt_irrefl 0)
  | cons bounding bound ih =>
    cases bound' with
    | nil => exact absurd (Nat.lt_of_lt_of_le hpos hbound') (Nat.lt_irrefl 0)
    | cons bounding' bound' =>
      rw [operationsWithin_cons, operationsWithin_cons]
      cases hround : (operationRound level.joins operand).run row with
      | error fault => rw [run_bind_of_error hround, run_bind_of_error hround]
      | ok result =>
        obtain ⟨found, after⟩ := result
        rw [run_bind_of_ok hround, run_bind_of_ok hround]
        cases found with
        | none => rfl
        | some operation =>
          have hafter := advances_operationRound hoperand hround
          have hlength := hafter.length_lt
          have hended := hafter.ended hrow
          simp only [List.length_cons] at hbound hbound'
          exact ih hended (by omega) (by omega) _ (List.length_pos_of_mem hended.choose_spec.1)

/-- Each parameter is one token. -/
theorem length_parameters {function : String} {row after : TokenRow} {names : List String}
    (h : (parameters function).run row = .ok (names, after)) :
    ∃ taken, row.rest = taken ++ after.rest ∧ taken.length = names.length ∧
      ∀ token ∈ taken, token.kind = .parameter := by
  obtain ⟨tokens, rfl, -, rfl⟩ := parameters_eq_ok h
  refine ⟨tokens.map (·.val), rfl, by simp, fun token htoken ↦ ?_⟩
  obtain ⟨parameter, -, rfl⟩ := List.mem_map.mp htoken
  exact parameter.property

/-! ### All of it -/

/-- Progress of the reading of some tokens, with whichever declarations there are. -/
structure Progress (tokens : List Token) : Prop where
  expression_advances : ∀ depth level scope, (expression depth level scope).Advances
  /-- What stands behind a name is a call if it starts with a parenthesis. -/
  call_advances : ∀ depth scope name opening rest staged value after, opening.kind = .leftParen →
    (call (expression depth .sum scope) scope name).run ⟨opening :: rest, staged⟩ =
      .ok (value, after) → TokenRow.AdvancesTo ⟨opening :: rest, staged⟩ after
  letForm_advances : ∀ depth scope,
    (worded .letWord (letForm (expression depth .sum scope))).Advances
  ifForm_advances : ∀ depth scope,
    (worded .ifWord (ifForm (expression depth .sum scope))).Advances
  functionForm_advances : ∀ depth scope,
    (worded .functionWord (functionForm (expression depth .sum) scope)).Advances
  constForm_advances : ∀ depth scope,
    (worded .constWord (constForm (expression depth .sum scope))).Advances
  printForm_advances : ∀ depth scope,
    (worded .printWord (printForm (expression depth .sum scope))).Advances
  /-- Every round of a loop takes tokens. -/
  argument_advances : ∀ depth scope started,
    (itemRound .rightParen (expression depth .sum scope) started).Advances
  binding_advances : ∀ depth scope started,
    (itemRound .rightBrace (binding (expression depth .sum scope)) started).Advances
  operation_advances : ∀ depth (level : Level) inner scope row found after,
    (operationRound level.joins (expression depth inner scope)).run row =
      .ok (some found, after) → row.AdvancesTo after
  parameter_advances : ∀ function row names after,
    (parameters function).run row = .ok (names, after) →
      ∃ taken, row.rest = taken ++ after.rest ∧ taken.length = names.length ∧
        ∀ token ∈ taken, token.kind = .parameter
  /-- The loops end by themselves: no bound on their rounds makes a difference that is at least the
  number of tokens ahead. -/
  arguments_end : ∀ depth scope row bound started, row.rest <:+ tokens → row.rest ≠ [] →
    row.rest.length ≤ bound.length →
      (itemsWithin .rightParen (expression depth .sum scope) bound started).run row =
        (itemsWithin .rightParen (expression depth .sum scope) row.rest started).run row
  bindings_end : ∀ depth scope row bound started, row.rest <:+ tokens → row.rest ≠ [] →
    row.rest.length ≤ bound.length →
      (itemsWithin .rightBrace (binding (expression depth .sum scope)) bound started).run row =
        (itemsWithin .rightBrace (binding (expression depth .sum scope)) row.rest started).run row
  operations_end : ∀ depth (level : Level) inner scope row bound left, row.rest <:+ tokens →
    row.rest ≠ [] → row.rest.length ≤ bound.length →
      (operationsWithin level.joins (expression depth inner scope) bound left).run row =
        (operationsWithin level.joins (expression depth inner scope) row.rest left).run row
  /-- Tokens can be put back wherever that is done: no failure to do so ever shows. -/
  backup_succeeds : ∀ otherwise depth level scope row, row.rest <:+ tokens →
    (expressionBackingUp tokens otherwise depth level scope).run row =
      (expression depth level scope).run row
  /-- A nesting linear in the number of tokens suffices for a statement or an error. -/
  nesting_suffices : ∀ limit declarations, 4 * (tokens.length + 1) ≤ limit →
    (∃ statement, Statement.ofTokens limit declarations tokens = .ok statement) ∨
      ∃ error, Statement.ofTokens limit declarations tokens = .error (.error error)

/-- Reading makes progress on all tokens that end in an end mark. -/
theorem progress_of_ended (front : List Token) {last : Token} (hlast : last.kind = .eof) :
    Progress (front ++ [last]) := by
  have hne : front ++ [last] ≠ [] := List.append_ne_nil_of_right_ne_nil _ (List.cons_ne_nil _ _)
  have hended {row : TokenRow} (hrow : row.rest <:+ front ++ [last]) (hrest : row.rest ≠ []) :
      ∃ token ∈ row.rest, token.kind = .eof := by
    refine ⟨row.rest.getLast hrest, List.getLast_mem hrest, ?_⟩
    rw [hrow.getLast hrest, List.getLast_concat]
    exact hlast
  exact
    { expression_advances := advances_expression
      call_advances := fun _ _ _ _ _ _ _ _ ↦ advances_call
      letForm_advances := fun depth scope ↦ advances_worded (by decide) fun token _ _ _ ↦
        sound_letForm (sound_expression depth .sum scope) token
      ifForm_advances := fun depth scope ↦ advances_worded (by decide) fun token _ _ _ ↦
        sound_ifForm (sound_expression depth .sum scope) token
      functionForm_advances := fun depth scope ↦ advances_worded (by decide) fun token _ _ _ ↦
        sound_functionForm (sound_expression depth .sum) token
      constForm_advances := fun depth scope ↦ advances_worded (by decide) fun token _ _ _ ↦
        sound_constForm (sound_expression depth .sum scope) token
      printForm_advances := fun depth scope ↦ advances_worded (by decide) fun token _ _ _ ↦
        sound_printForm (sound_expression depth .sum scope) token
      argument_advances := fun depth scope ↦
        advances_itemRound (by decide) (advances_expression depth .sum scope)
      binding_advances := fun depth scope ↦
        advances_itemRound (by decide) (advances_binding depth scope)
      operation_advances := fun depth _ inner scope _ _ _ ↦
        advances_operationRound (advances_expression depth inner scope)
      parameter_advances := fun _ _ _ _ ↦ length_parameters
      arguments_end := fun depth scope row bound started hrow hrest hbound ↦
        itemsWithin_bound (by decide) (advances_expression depth .sum scope) (hended hrow hrest)
          hbound Nat.le.refl started
      bindings_end := fun depth scope row bound started hrow hrest hbound ↦
        itemsWithin_bound (by decide) (advances_binding depth scope) (hended hrow hrest)
          hbound Nat.le.refl started
      operations_end := fun depth _ inner scope row bound left hrow hrest hbound ↦
        operationsWithin_bound (advances_expression depth inner scope) (hended hrow hrest)
          hbound Nat.le.refl left
      backup_succeeds := fun _ depth level scope row hrow ↦
        ((agrees_expressionBackingUp hne List.suffix_rfl depth level scope row hrow).run_eq).symm
      nesting_suffices := fun limit declarations hlimit ↦ by
        have hdeep := Statement.ofTokens_ne_tooDeep hne hlimit declarations
        cases hread : Statement.ofTokens limit declarations (front ++ [last]) with
        | ok statement => exact .inl ⟨statement, rfl⟩
        | error fault =>
          cases fault with
          | error error => exact .inr ⟨error, rfl⟩
          | tooDeep => exact absurd hread hdeep }

/-- Reading makes progress on a call whose parenthesis is never closed. -/
theorem progress_unclosedCall :
    Progress [⟨.identifier, "f", .unknown⟩, ⟨.leftParen, "(", .unknown⟩, ⟨.eof, "", .unknown⟩] :=
  progress_of_ended [⟨.identifier, "f", .unknown⟩, ⟨.leftParen, "(", .unknown⟩] rfl

end Reader

end Reckoner
