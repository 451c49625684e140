import Reckoner.Proofs.Grammar.StatementTree

/-!
Putting tokens back. A reader of operands that puts a token back before it reads a form never lacks
one to put back: it reads what the reader does that goes on behind the token. In the same way
through the grammar the nesting that is needed is bounded by the number of tokens.
-/

set_option autoImplicit false
set_option relaxedAutoImplicit false

namespace Reckoner

namespace Reader

variable {α β : Type} {tokens base : List Token} {otherwise : Fault ParseError} {granted : Prop}

/-- Reads a form with the word that starts it. -/
def worded (word : TokenKind) (form : Pos → Reader Expr) : Reader Expr := do
  let token ← expect word
  form token.pos

/-- Moves a cursor over all tokens back by one. Its position is the number of tokens that have been
taken; where none have been there is no way back. -/
def backup (tokens : List Token) (otherwise : Fault ParseError) : Reader Unit := do
  let row ← get
  let position := tokens.length - row.rest.length
  if position < 1 then throw otherwise
  else set { row with rest := tokens.drop (position - 1) }

/-- Reads an operand as `operand` does, but puts the first token back unless it is part of an
operand itself. The forms read their words once more. -/
def operandBackingUp (tokens : List Token) (otherwise : Fault ParseError)
    (expr : Scope → Reader Expr) (negated : Reader Expr) (scope : Scope) : Reader Expr := do
  let token ← next
  match token.kind with
  | .leftParen =>
    let inner ← expr scope
    let _ ← expect .rightParen
    return inner
  | .operator =>
    if token.text = "-" then
      let right ← negated
      return .binary token.pos .sub (.literal token.pos (.number 0.0)) right
    else
      backup tokens otherwise
      fail .noExpression token
  | .number =>
    match Number.read? token.text with
    | some x => return .literal token.pos (.number x)
    | none => fail .invalidNumber token
  | .string => return .literal token.pos (.text token.text)
  | .identifier =>
    if (← peek).kind = .leftParen then call (expr scope) scope token
    else return .access token.pos token.text
  | kind =>
    backup tokens otherwise
    match kind with
    | .letWord => worded .letWord (letForm (expr scope))
    | .ifWord => worded .ifWord (ifForm (expr scope))
    | .functionWord => worded .functionWord (functionForm expr scope)
    | .constWord => worded .constWord (constForm (expr scope))
    | .printWord => worded .printWord (printForm (expr scope))
    | _ => fail .noExpression token

/-- Reads an expression as `expression` does, with operands that put tokens back. -/
def expressionBackingUp (tokens : List Token) (otherwise : Fault ParseError) :
    Nat → Level → Scope → Reader Expr
  | 0, _, _ => throw .tooDeep
  | depth + 1, .sum, scope =>
    operations Level.sum.joins (expressionBackingUp tokens otherwise depth .product scope)
  | depth + 1, .product, scope =>
    operations Level.product.joins (expressionBackingUp tokens otherwise depth .power scope)
  | depth + 1, .power, scope =>
    operations Level.power.joins (expressionBackingUp tokens otherwise depth .operand scope)
  | depth + 1, .operand, scope =>
    operandBackingUp tokens otherwise (expressionBackingUp tokens otherwise depth .sum)
      (expressionBackingUp tokens otherwise depth .operand scope) scope

/-- A token that has just been taken can be put back. -/
theorem run_backup {token : Token} {rest : List Token} (htokens : token :: rest <:+ tokens)
    (staged : List Declaration) :
    (backup tokens otherwise).run ⟨rest, staged⟩ = .ok ((), ⟨token :: rest, staged⟩) := by
  obtain ⟨front, rfl⟩ := htokens
  have hposition : (front ++ token :: rest).length - rest.length = front.length + 1 := by
    rw [List.length_append, List.length_cons]
    omega
  rw [backup, run_bind_of_ok (run_get _)]
  dsimp only
  rw [hposition, if_neg (by omega), Nat.add_sub_cancel, List.drop_left]
  rfl

/-- Behind its word a form is read alike, whether or not the word has been put back. -/
theorem run_backup_worded {token : Token} {rest : List Token} (htokens : token :: rest <:+ tokens)
    {word : TokenKind} (hword : token.kind = word) (form : Pos → Reader Expr)
    (staged : List Declaration) :
    (backup tokens otherwise >>= fun _ ↦ worded word form).run ⟨rest, staged⟩ =
      (form token.pos).run ⟨rest, staged⟩ := by
  rw [run_bind_of_ok (run_backup htokens staged), worded, run_bind_of_ok (run_expect hword ..)]

/-- What the two readers do on a row: the same, with an end of it left. They run into the limit only
where that is granted. -/
structure AgreesAt (granted : Prop) (reader other : Reader α) (row : TokenRow) : Prop where
  run_eq : reader.run row = other.run row
  suffix : ∀ value after, reader.run row = .ok (value, after) → after.rest <:+ row.rest
  tooDeep : reader.run row = .error .tooDeep → granted

/-- The two readers agree on the ends of some tokens. -/
def Agrees (base : List Token) (granted : Prop) (α : Type) (reader other : Reader α) : Prop :=
  ∀ row : TokenRow, row.rest <:+ base → AgreesAt granted reader other row

theorem AgreesAt.bind {reader other : Reader α} {next next' : α → Reader β} {row : TokenRow}
    (h : AgreesAt granted reader other row)
    (hnext : ∀ value after, reader.run row = .ok (value, after) →
      AgreesAt granted (next value) (next' value) after) :
    AgreesAt granted (reader >>= next) (other >>= next') row := by
  cases hrun : reader.run row with
  | error fault =>
    have hfault (next : α → Reader β) : (reader >>= next).run row = .error fault :=
      run_bind_of_error hrun next
    refine ⟨?_, fun value after hok ↦ ?_, fun hdeep ↦ ?_⟩
    · rw [hfault, run_bind_of_error (h.run_eq.symm.trans hrun)]
    · rw [hfault] at hok
      cases hok
    · rw [hfault] at hdeep
      cases hdeep
      exact h.tooDeep hrun
  | ok result =>
    obtain ⟨value, middle⟩ := result
    have hvalue := hnext value middle hrun
    have hok : (reader >>= next).run row = (next value).run middle := run_bind_of_ok hrun next
    refine ⟨?_, fun found after hfound ↦ ?_, fun hdeep ↦ hvalue.tooDeep (hok ▸ hdeep)⟩
    · rw [hok, hvalue.run_eq, run_bind_of_ok (h.run_eq.symm.trans hrun)]
    · exact (hvalue.suffix found after (hok ▸ hfound)).trans (h.suffix _ _ hrun)

theorem congruence_agrees (base : List Token) (granted : Prop) :
    Congruence (Agrees base granted) where
  plain h row _ := ⟨rfl, fun value after ↦ h.suffix row value after,
    fun hdeep ↦ absurd hdeep (h.shallow row)⟩
  bind h hnext row hrow := (h row hrow).bind fun value after hvalue ↦
    hnext value after (((h row hrow).suffix value after hvalue).trans hrow)

/-- Where a token has been taken, to put it back and fail is to fail. -/
theorem agreesAt_fail {rest : List Token} (hrest : rest.length < tokens.length)
    (cause : ParseError.Cause) (token : Token) (staged : List Declaration) :
    AgreesAt granted (fail cause token : Reader α)
      (backup tokens otherwise >>= fun _ ↦ fail cause token) ⟨rest, staged⟩ := by
  have hback : (backup tokens otherwise).run ⟨rest, staged⟩ =
      .ok ((), ⟨tokens.drop (tokens.length - rest.length - 1), staged⟩) := by
    rw [backup, run_bind_of_ok (run_get _)]
    dsimp only
    rw [if_neg (by omega)]
    rfl
  exact ⟨by rw [run_bind_of_ok hback]; rfl, nofun, nofun⟩

/-- Behind its word a form agrees with the same form where the word is put back. -/
theorem agreesAt_worded {token : Token} {rest : List Token} (htokens : token :: rest <:+ tokens)
    {word : TokenKind} (hword : token.kind = word) {form form' : Pos → Reader Expr}
    (hform : ∀ pos, Agrees rest granted Expr (form pos) (form' pos)) (staged : List Declaration) :
    AgreesAt granted (form token.pos)
      (backup tokens otherwise >>= fun _ ↦ worded word form') ⟨rest, staged⟩ := by
  have h := hform token.pos ⟨rest, staged⟩ List.suffix_rfl
  exact ⟨h.run_eq.trans (run_backup_worded htokens hword form' staged).symm, h.suffix, h.tooDeep⟩

/-- Operands agree with those that put tokens back, if the readers inside them agree behind the
first token. -/
theorem agrees_operandBackingUp (htokens : tokens ≠ []) (hbase : base <:+ tokens)
    {expr expr' : Scope → Reader Expr} {negated negated' : Reader Expr} (scope : Scope)
    (hexpr : ∀ token rest, token :: rest <:+ base →
      (∀ inner, Agrees rest granted Expr (expr inner) (expr' inner)) ∧
        Agrees rest granted Expr negated negated') :
    Agrees base granted Expr (operand expr negated scope)
      (operandBackingUp tokens otherwise expr' negated' scope) := by
  rintro ⟨rest, staged⟩ hrow
  have hfirst : AgreesAt granted next next ⟨rest, staged⟩ :=
    (congruence_agrees base granted).plain plain_next _ hrow
  refine hfirst.bind fun token after htaken ↦ ?_
  cases rest with
  | nil =>
    have hlength : ([] : List Token).length < tokens.length := List.length_pos_iff.mpr htokens
    cases htaken
    exact agreesAt_fail hlength .noExpression ⟨.eof, "", .unknown⟩ staged
  | cons first rest =>
    rw [run_next_cons] at htaken
    obtain ⟨rfl, rfl⟩ := Prod.mk.inj (Except.ok.inj htaken)
    obtain ⟨h, hnegated⟩ := hexpr first rest hrow
    have hR := congruence_agrees rest granted
    have hback : first :: rest <:+ tokens := hrow.trans hbase
    have hfail : AgreesAt granted (fail .noExpression first : Reader Expr)
        (backup tokens otherwise >>= fun _ ↦ fail .noExpression first) ⟨rest, staged⟩ :=
      agreesAt_fail (Nat.lt_of_lt_of_le (Nat.lt_succ_self _) hback.length_le) ..
    cases hkind : first.kind with
    | leftParen =>
      exact hR.bind (h scope) (fun _ ↦ hR.step (plain_expect .rightParen) fun _ ↦ hR.pure _) _
        List.suffix_rfl
    | operator =>
      dsimp only
      by_cases hminus : first.text = "-"
      · rw [if_pos hminus, if_pos hminus]
        exact hR.bind hnegated (fun _ ↦ hR.pure _) _ List.suffix_rfl
      · rw [if_neg hminus, if_neg hminus]
        exact hfail
    | number =>
      dsimp only
      cases Number.read? first.text with
      | some x => exact hR.pure _ ⟨rest, staged⟩ List.suffix_rfl
      | none => exact hR.plain (plain_fail ..) ⟨rest, staged⟩ List.suffix_rfl
    | string => exact hR.pure _ _ List.suffix_rfl
    | identifier =>
      refine hR.step plain_peek (fun following ↦ ?_) _ List.suffix_rfl
      split
      · exact hR.call (h scope) scope first
      · exact hR.pure _
    | letWord => exact agreesAt_worded hback hkind (hR.letForm (h scope)) staged
    | ifWord => exact agreesAt_worded hback hkind (hR.ifForm (h scope)) staged
    | functionWord => exact agreesAt_worded hback hkind (hR.functionForm h scope) staged
    | constWord => exact agreesAt_worded hback hkind (hR.constForm (h scope)) staged
    | printWord => exact agreesAt_worded hback hkind (hR.printForm (h scope)) staged
    | _ => exact hfail

theorem Agrees.mono {granted' : Prop} {reader other : Reader α} (hgranted : granted → granted')
    (h : Agrees base granted α reader other) : Agrees base granted' α reader other :=
  fun row hrow ↦ ⟨(h row hrow).run_eq, (h row hrow).suffix, hgranted ∘ (h row hrow).tooDeep⟩

/-- Expressions are read alike whether or not tokens are put back. The limit is in the way only if
it is below four levels for each token and for what is missing behind the last one. -/
theorem agrees_expressionBackingUp (htokens : tokens ≠ []) (hbase : base <:+ tokens) (depth : Nat)
    (level : Level) (scope : Scope) :
    Agrees base (depth + (Phrase.expression level).looser < 4 * (base.length + 1)) Expr
      (expression depth level scope) (expressionBackingUp tokens otherwise depth level scope) := by
  induction depth generalizing base level scope with
  | zero =>
    have hlooser : (Phrase.expression level).looser < 4 := by cases level <;> decide
    exact fun row _ ↦ ⟨rfl, nofun, fun _ ↦ by omega⟩
  | succ depth ih =>
    have hlooser (loose : level ≠ .operand) :
        (depth + (Phrase.expression level.tighter).looser < 4 * (base.length + 1)) =
          (depth + 1 + (Phrase.expression level).looser < 4 * (base.length + 1)) := by
      rw [Phrase.looser_tighter loose, Nat.add_right_comm, Nat.add_assoc]
    cases level with
    | sum =>
      exact (congruence_agrees ..).operations (hlooser (by decide) ▸ ih hbase .product scope)
    | product =>
      exact (congruence_agrees ..).operations (hlooser (by decide) ▸ ih hbase .power scope)
    | power =>
      exact (congruence_agrees ..).operations (hlooser (by decide) ▸ ih hbase .operand scope)
    | operand =>
      refine agrees_operandBackingUp htokens hbase scope fun token rest hrest ↦ ?_
      have hlength : rest.length + 1 ≤ base.length := hrest.length_le
      have hbehind : rest <:+ tokens := (List.suffix_cons token rest).trans (hrest.trans hbase)
      refine ⟨fun inner ↦ (ih hbehind .sum inner).mono ?_, (ih hbehind .operand scope).mono ?_⟩
      · simp only [Phrase.looser]
        omega
      · simp only [Phrase.looser]
        omega

end Reader

/-- With four levels of nesting for each token and for what is missing behind the last one, the
limit is not in the way. -/
theorem Statement.ofTokens_ne_tooDeep {limit : Nat} {tokens : List Token} (htokens : tokens ≠ [])
    (hlimit : 4 * (tokens.length + 1) ≤ limit) (declarations : Declarations) :
    ofTokens limit declarations tokens ≠ .error .tooDeep := by
  have hexpr : Reader.Agrees tokens (limit + 0 < 4 * (tokens.length + 1)) Expr
      (Reader.expression limit .sum ⟨declarations, none⟩)
      (Reader.expressionBackingUp tokens .tooDeep limit .sum ⟨declarations, none⟩) :=
    Reader.agrees_expressionBackingUp htokens List.suffix_rfl limit .sum _
  have hend (expr : Expr) : Reader.Plain (do
      let _ ← Reader.accept .semicolon
      let token ← Reader.peek
      if token.kind = .eof then return (⟨expr, (← get).staged⟩ : Statement)
      else Reader.fail .afterStatement token) := by
    refine (Reader.plain_accept .semicolon).bind fun _ ↦ Reader.plain_peek.bind fun token ↦ ?_
    split
    · exact Reader.plain_get.bind fun _ ↦ Reader.plain_pure _
    · exact Reader.plain_fail ..
  have hreader := (Reader.congruence_agrees tokens _).bind hexpr fun expr ↦
    (Reader.congruence_agrees tokens _).plain (hend expr)
  intro hdeep
  have hrun : (reader limit declarations).run ⟨tokens, []⟩ = .error .tooDeep := by
    unfold ofTokens at hdeep
    cases hrun : (reader limit declarations).run ⟨tokens, []⟩ with
    | ok found =>
      rw [hrun] at hdeep
      cases hdeep
    | error fault =>
      rw [hrun] at hdeep
      cases hdeep
      rfl
  have hless := (hreader ⟨tokens, []⟩ List.suffix_rfl).tooDeep hrun
  omega

end Reckoner
