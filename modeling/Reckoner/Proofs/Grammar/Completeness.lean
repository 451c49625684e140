import Reckoner.Proofs.Grammar.Reading

/-!
Whatever has a tree that is in order and greedy is read, and read as that tree. What stands
behind a tree decides where its reading ends: an expression ends before a token that is
neither an operator that carries it on nor the parenthesis of a call.
-/

set_option autoImplicit false
set_option relaxedAutoImplicit false

namespace Reckoner

/-- Whether no parenthesis opens at the front of the tokens. -/
def NoParen (rest : List Token) : Prop :=
  ∀ token ∈ rest.head?, token.kind ≠ .leftParen

theorem noParen_cons {token : Token} (h : token.kind ≠ .leftParen) (rest : List Token) :
    NoParen (token :: rest) := by
  intro found hfound
  cases hfound
  exact h

namespace Level

theorem endsBefore_cons {token : Token} (h : token.kind ≠ .operator) (level : Level)
    (rest : List Token) : level.EndsBefore (token :: rest) := by
  intro found hfound hkind
  cases hfound
  exact absurd hkind h

theorem EndsBefore.tighter {level : Level} {rest : List Token} (h : level.EndsBefore rest) :
    level.tighter.EndsBefore rest :=
  fun token htoken hkind hmem ↦ h token htoken hkind ((level.mem_reach _).mpr (.inr hmem))

/-- The operators of a level do not carry on expressions of tighter levels. -/
theorem not_mem_reach_tighter {level : Level} {text : String} (h : text ∈ level.signs) :
    text ∉ level.tighter.reach := by
  cases level <;>
    simp only [signs, tighter, reach, List.mem_cons, List.not_mem_nil, or_false] at h ⊢
  · rcases h with rfl | rfl <;> decide
  · rcases h with rfl | rfl <;> decide
  · subst h
    decide

end Level

namespace ParseTree

/-- An operand ends before the operations on it. -/
theorem endsBefore_operations {level : Level} (more : ParseTree (.operations level))
    {rest : List Token} (h : level.EndsBefore rest) :
    level.tighter.EndsBefore (more.tokens ++ rest) := by
  cases more with
  | noOperation => exact h.tighter
  | operation sign right more =>
    intro token htoken _
    cases htoken
    exact Level.not_mem_reach_tighter sign.property.2

theorem noParen_operations {level : Level} (more : ParseTree (.operations level))
    {rest : List Token} (h : NoParen rest) : NoParen (more.tokens ++ rest) := by
  cases more with
  | noOperation => exact h
  | operation sign right more => exact noParen_cons (by rw [sign.property.1]; decide) _

end ParseTree

/-- The kinds of token that close a row of items. -/
def TokenKind.ClosesItems (kind : TokenKind) : Prop :=
  kind = .rightParen ∨ kind = .rightBrace

theorem TokenKind.ClosesItems.ne_comma {kind : TokenKind} (h : kind.ClosesItems) :
    kind ≠ .comma := by
  rcases h with rfl | rfl <;> decide

theorem Phrase.endsBefore_cons {token : Token} (h : token.kind ≠ .operator) (phrase : Phrase)
    (rest : List Token) : phrase.EndsBefore (token :: rest) := by
  cases phrase with
  | expression level => exact level.endsBefore_cons h rest
  | operations level => exact level.endsBefore_cons h rest
  | binding => exact Level.sum.endsBefore_cons h rest
  | items item => trivial
  | moreItems item => trivial

namespace ParseTree

/-- Behind an item stands a comma or the token that closes the row. -/
theorem head_moreItems {item : Phrase} (more : ParseTree (.moreItems item)) (closing : Token)
    (rest : List Token) : ∃ token behind, more.tokens ++ closing :: rest = token :: behind ∧
      (token.kind = .comma ∨ token = closing) := by
  cases more with
  | noMoreItems => exact ⟨closing, rest, rfl, .inr rfl⟩
  | moreItems comma first more => exact ⟨comma.val, _, rfl, .inl comma.property⟩

theorem endsBefore_moreItems {item : Phrase} (more : ParseTree (.moreItems item))
    {closing : Token} {rest : List Token} (h : closing.kind.ClosesItems) (phrase : Phrase) :
    phrase.EndsBefore (more.tokens ++ closing :: rest) := by
  obtain ⟨token, behind, htokens, htoken⟩ := more.head_moreItems closing rest
  rw [htokens]
  refine phrase.endsBefore_cons ?_ _
  rcases htoken with hcomma | rfl
  · rw [hcomma]
    decide
  · rcases h with h | h <;> rw [h] <;> decide

theorem noParen_moreItems {item : Phrase} (more : ParseTree (.moreItems item))
    {closing : Token} {rest : List Token} (h : closing.kind.ClosesItems) :
    NoParen (more.tokens ++ closing :: rest) := by
  obtain ⟨token, behind, htokens, htoken⟩ := more.head_moreItems closing rest
  rw [htokens]
  refine noParen_cons ?_ _
  rcases htoken with hcomma | rfl
  · rw [hcomma]
    decide
  · rcases h with h | h <;> rw [h] <;> decide

/-- The kind of the token that an operand starts with. -/
def headKind : ParseTree (.expression .operand) → TokenKind
  | chain loose _ _ => absurd rfl loose
  | paren _ _ _ => .leftParen
  | negation _ _ => .operator
  | number _ => .number
  | string _ => .string
  | access _ => .identifier
  | call _ _ _ _ => .identifier
  | letIn _ _ _ _ => .letWord
  | letGroup _ _ _ _ _ _ _ => .letWord
  | ifThenElse _ _ _ _ _ _ _ _ _ _ => .ifWord
  | function _ _ _ _ _ => .functionWord
  | const _ _ => .constWord
  | print _ _ _ _ => .printWord

theorem tokens_eq_cons (tree : ParseTree (.expression .operand)) :
    ∃ token more, tree.tokens = token :: more ∧ token.kind = tree.headKind := by
  cases tree with
  | chain loose first more => exact absurd rfl loose
  | paren opening inner closing => exact ⟨_, _, rfl, opening.property⟩
  | negation minus right => exact ⟨_, _, rfl, minus.property.1⟩
  | number token => exact ⟨_, _, rfl, token.property⟩
  | string token => exact ⟨_, _, rfl, token.property⟩
  | access name => exact ⟨_, _, rfl, name.property⟩
  | call name opening args closing => exact ⟨_, _, rfl, name.property⟩
  | letIn word bound inWord body => exact ⟨_, _, rfl, word.property⟩
  | letGroup word arrow opening bindings closing inWord body => exact ⟨_, _, rfl, word.property⟩
  | ifThenElse word => exact ⟨_, _, rfl, word.property⟩
  | function word name parameters arrow body => exact ⟨_, _, rfl, word.property⟩
  | const word bound => exact ⟨_, _, rfl, word.property⟩
  | print word opening inner closing => exact ⟨_, _, rfl, word.property⟩

theorem not_closesItems_headKind (tree : ParseTree (.expression .operand)) :
    ¬ tree.headKind.ClosesItems := by
  intro h
  cases tree with
  | chain loose first more => exact absurd rfl loose
  | _ => rcases h with h | h <;> cases h

/-- Every expression starts with an operand. -/
theorem exists_operand {level : Level} (tree : ParseTree (.expression level)) :
    ∃ (operand : ParseTree (.expression .operand)) (more : List Token),
      tree.tokens = operand.tokens ++ more := by
  generalize hphrase : Phrase.expression level = phrase at tree
  induction tree generalizing level with
  | chain loose first more ih =>
    obtain ⟨operand, behind, hoperand⟩ := ih rfl
    exact ⟨operand, behind ++ more.tokens, by simp [tokens, hoperand]⟩
  | noOperation => cases hphrase
  | operation => cases hphrase
  | binding => cases hphrase
  | noItems => cases hphrase
  | items => cases hphrase
  | noMoreItems => cases hphrase
  | moreItems => cases hphrase
  | _ => exact ⟨_, [], (List.append_nil _).symm⟩

theorem head_expression {level : Level} (tree : ParseTree (.expression level)) :
    ∃ token more, tree.tokens = token :: more ∧ ¬ token.kind.ClosesItems := by
  obtain ⟨operand, behind, hoperand⟩ := tree.exists_operand
  obtain ⟨token, more, htoken, hkind⟩ := operand.tokens_eq_cons
  exact ⟨token, more ++ behind, by rw [hoperand, htoken, List.cons_append],
    hkind ▸ operand.not_closesItems_headKind⟩

theorem head_binding (tree : ParseTree .binding) :
    ∃ token more, tree.tokens = token :: more ∧ ¬ token.kind.ClosesItems := by
  cases tree with
  | binding name equals value =>
    refine ⟨name.val, _, rfl, ?_⟩
    rw [name.property]
    rintro (h | h) <;> cases h

end ParseTree

namespace Reader

/-- Whatever has a tree of the phrase, with at most the given nesting, is read as that tree. -/
def Complete (scope : Scope) (depth : Nat) (phrase : Phrase) (reader : Reader phrase.Value) :
    Prop :=
  ∀ (tree : ParseTree phrase) (staged : List Declaration) (rest : List Token),
    tree.nesting ≤ depth → tree.Valid scope staged → tree.Greedy rest →
      phrase.EndsBefore rest → NoParen rest →
        reader.run ⟨tree.tokens ++ rest, staged⟩ =
          .ok (tree.value scope.declarations.builtins,
            ⟨rest, staged ++ tree.declared scope.declarations.builtins⟩)

variable {scope : Scope} {depth : Nat}

theorem complete_operationsWithin {level : Level} {operand : Reader Expr}
    (hoperand : Complete scope depth (.expression level.tighter) operand)
    (tree : ParseTree (.operations level)) {bound : List Token} {left : Expr}
    {staged : List Declaration} {rest : List Token}
    (hbound : (tree.tokens ++ rest).length ≤ bound.length) (hnesting : tree.nesting ≤ depth)
    (hvalid : tree.Valid scope staged) (hgreedy : tree.Greedy rest)
    (hends : level.EndsBefore rest) (hparen : NoParen rest) :
    (operationsWithin level.joins operand bound left).run ⟨tree.tokens ++ rest, staged⟩ =
      .ok (left.operate (tree.value scope.declarations.builtins),
        ⟨rest, staged ++ tree.declared scope.declarations.builtins⟩) := by
  induction bound generalizing tree left staged with
  | nil =>
    cases tree with
    | noOperation =>
      rw [ParseTree.declared, List.append_nil]
      rfl
    | operation sign right more => simp [ParseTree.tokens] at hbound
  | cons bounding bound ih =>
    cases tree with
    | noOperation =>
      rw [operationsWithin, run_bind_of_ok (run_acceptOperator_of_endsBefore hends),
        ParseTree.declared, List.append_nil]
      rfl
    | operation sign right more =>
      have hright := hoperand right staged (more.tokens ++ rest)
        (Nat.le_trans (Nat.le_max_left _ _) hnesting) hvalid.1 hgreedy.1
        (more.endsBefore_operations hends) (more.noParen_operations hparen)
      rw [operationsWithin, ParseTree.tokens, List.cons_append, List.append_assoc,
        run_bind_of_ok (run_acceptOperator sign.property _ _)]
      dsimp only
      rw [run_bind_of_ok hright, ih more _
        (Nat.le_trans (Nat.le_max_right _ _) hnesting) hvalid.2 hgreedy.2,
        List.append_assoc]
      · rfl
      · simp only [ParseTree.tokens, List.cons_append, List.append_assoc, List.length_cons,
          List.length_append] at hbound ⊢
        omega

theorem complete_operations {level : Level} {operand : Reader Expr}
    (hoperand : Complete scope depth (.expression level.tighter) operand)
    {first : ParseTree (.expression level.tighter)} {more : ParseTree (.operations level)}
    {staged : List Declaration} {rest : List Token} (hfirstNesting : first.nesting ≤ depth)
    (hmoreNesting : more.nesting ≤ depth) (hfirst : first.Valid scope staged)
    (hmore : more.Valid scope (staged ++ first.declared scope.declarations.builtins))
    (hfirstGreedy : first.Greedy (more.tokens ++ rest)) (hmoreGreedy : more.Greedy rest)
    (hends : level.EndsBefore rest) (hparen : NoParen rest) :
    (operations level.joins operand).run ⟨first.tokens ++ (more.tokens ++ rest), staged⟩ =
      .ok ((first.value scope.declarations.builtins).operate
          (more.value scope.declarations.builtins),
        ⟨rest, staged ++ (first.declared scope.declarations.builtins ++
          more.declared scope.declarations.builtins)⟩) := by
  have hread := hoperand first staged (more.tokens ++ rest) hfirstNesting hfirst hfirstGreedy
    (more.endsBefore_operations hends) (more.noParen_operations hparen)
  rw [operations, run_bind_of_ok hread, run_bind_of_ok (run_get _),
    complete_operationsWithin hoperand more Nat.le.refl hmoreNesting hmore hmoreGreedy hends hparen,
    List.append_assoc]

theorem complete_moreItems {item : Phrase} {close : TokenKind} (hclose : close.ClosesItems)
    {reader : Reader item.Value} (hitem : Complete scope depth item reader)
    (tree : ParseTree (.moreItems item)) {closing : Token} (hclosing : closing.kind = close)
    {bound : List Token} {staged : List Declaration} {rest : List Token}
    (hbound : (tree.tokens ++ closing :: rest).length ≤ bound.length)
    (hnesting : tree.nesting ≤ depth) (hvalid : tree.Valid scope staged)
    (hgreedy : tree.Greedy (closing :: rest)) :
    (itemsWithin close reader bound true).run ⟨tree.tokens ++ closing :: rest, staged⟩ =
      .ok (tree.value scope.declarations.builtins,
        ⟨rest, staged ++ tree.declared scope.declarations.builtins⟩) := by
  induction bound generalizing tree staged with
  | nil => simp at hbound
  | cons bounding bound ih =>
    cases tree with
    | noMoreItems =>
      rw [itemsWithin, ParseTree.tokens, List.nil_append,
        run_bind_of_ok (run_accept_of_eq hclosing _ _), ParseTree.declared, List.append_nil]
      rfl
    | moreItems comma first more =>
      have hfirst := hitem first staged (more.tokens ++ closing :: rest)
        (Nat.le_trans (Nat.le_max_left _ _) hnesting) hvalid.1 hgreedy.1
        (more.endsBefore_moreItems (hclosing ▸ hclose) item)
        (more.noParen_moreItems (hclosing ▸ hclose))
      have hcomma : comma.val.kind ≠ close := by
        rw [comma.property]
        exact hclose.ne_comma.symm
      rw [itemsWithin, ParseTree.tokens, List.cons_append, List.append_assoc,
        run_bind_of_ok (run_accept_cons_of_ne hcomma _ _)]
      simp only [Bool.false_eq_true, if_false, if_true]
      rw [run_bind_of_ok (run_expect comma.property _ _), run_bind_of_ok hfirst,
        run_bind_of_ok (ih more _ (Nat.le_trans (Nat.le_max_right _ _) hnesting) hvalid.2
          hgreedy.2), List.append_assoc]
      · rfl
      · simp only [ParseTree.tokens, List.cons_append, List.append_assoc, List.length_cons,
          List.length_append] at hbound ⊢
        omega

/-- Items that do not start with a closing token are read up to it. -/
theorem complete_items {item : Phrase} {close : TokenKind} (hclose : close.ClosesItems)
    {reader : Reader item.Value} (hitem : Complete scope depth item reader)
    (hstart : ∀ tree : ParseTree item, ∃ token more, tree.tokens = token :: more ∧
      ¬ token.kind.ClosesItems)
    (tree : ParseTree (.items item)) {closing : Token} (hclosing : closing.kind = close)
    {staged : List Declaration} {rest : List Token} (hnesting : tree.nesting ≤ depth)
    (hvalid : tree.Valid scope staged) (hgreedy : tree.Greedy (closing :: rest)) :
    (items close reader).run ⟨tree.tokens ++ closing :: rest, staged⟩ =
      .ok (tree.value scope.declarations.builtins,
        ⟨rest, staged ++ tree.declared scope.declarations.builtins⟩) := by
  rw [items, run_bind_of_ok (run_get _)]
  dsimp only
  cases tree with
  | noItems =>
    rw [ParseTree.tokens, List.nil_append, itemsWithin,
      run_bind_of_ok (run_accept_of_eq hclosing _ _), ParseTree.declared, List.append_nil]
    rfl
  | items first more =>
    obtain ⟨token, behind, htokens, htoken⟩ := hstart first
    have hfirst := hitem first staged (more.tokens ++ closing :: rest)
      (Nat.le_trans (Nat.le_max_left _ _) hnesting) hvalid.1 hgreedy.1
      (more.endsBefore_moreItems (hclosing ▸ hclose) item)
      (more.noParen_moreItems (hclosing ▸ hclose))
    have hother : token.kind ≠ close := fun h ↦ htoken (h ▸ hclose)
    rw [ParseTree.tokens, List.append_assoc, htokens, List.cons_append, itemsWithin,
      run_bind_of_ok (run_accept_cons_of_ne hother _ _)]
    simp only [Bool.false_eq_true, if_false]
    rw [← List.cons_append, ← htokens, run_bind_of_ok hfirst,
      run_bind_of_ok (complete_moreItems hclose hitem more hclosing ?_
        (Nat.le_trans (Nat.le_max_right _ _) hnesting) hvalid.2 hgreedy.2), List.append_assoc]
    · rfl
    · simp only [List.length_append]
      omega

theorem complete_binding {expr : Reader Expr}
    (hexpr : Complete scope depth (.expression .sum) expr) :
    Complete scope depth .binding (binding expr) := by
  intro tree staged rest hnesting hvalid hgreedy hends hparen
  cases tree with
  | binding name equals value =>
    have hvalue := hexpr value staged rest hnesting hvalid hgreedy hends hparen
    rw [binding, ParseTree.tokens, List.cons_append, List.cons_append,
      run_bind_of_ok (run_expect name.property _ _),
      run_bind_of_ok (run_expectEquals equals.property _ _), run_bind_of_ok hvalue]
    rfl

/-- A phrase that is followed by a token which can neither carry it on nor open a call. -/
theorem Complete.before {phrase : Phrase} {reader : Reader phrase.Value}
    (hreader : Complete scope depth phrase reader) {tree : ParseTree phrase}
    {staged : List Declaration} {kind : TokenKind} (token : TokenOf kind) {rest : List Token}
    (hkind : kind ≠ .operator ∧ kind ≠ .leftParen) (hnesting : tree.nesting ≤ depth)
    (hvalid : tree.Valid scope staged) (hgreedy : tree.Greedy (token.val :: rest)) :
    reader.run ⟨tree.tokens ++ token.val :: rest, staged⟩ =
      .ok (tree.value scope.declarations.builtins,
        ⟨token.val :: rest, staged ++ tree.declared scope.declarations.builtins⟩) := by
  obtain ⟨token, rfl⟩ := token
  exact hreader tree staged _ hnesting hvalid hgreedy (phrase.endsBefore_cons hkind.1 _)
    (noParen_cons hkind.2 _)

theorem complete_call {expr : Reader Expr} (hexpr : Complete scope depth (.expression .sum) expr)
    (name : TokenOf .identifier) (opening : TokenOf .leftParen)
    (args : ParseTree (.items (.expression .sum))) (closing : TokenOf .rightParen)
    {staged : List Declaration} {rest : List Token}
    (hnesting : (ParseTree.call name opening args closing).nesting ≤ depth + 1)
    (hvalid : (ParseTree.call name opening args closing).Valid scope staged)
    (hgreedy : (ParseTree.call name opening args closing).Greedy rest) :
    (call expr scope name.val).run
        ⟨opening.val :: (args.tokens ++ closing.val :: rest), staged⟩ =
      .ok ((ParseTree.call name opening args closing).value scope.declarations.builtins,
        ⟨rest, staged ++ args.declared scope.declarations.builtins⟩) := by
  have hargs := complete_items (.inl rfl) hexpr ParseTree.head_expression args closing.property
    (Nat.le_of_succ_le_succ hnesting) hvalid.1 hgreedy
  rw [call, run_bind_of_ok (run_skip _ _ _), run_bind_of_ok hargs]
  by_cases hbuiltin : scope.declarations.builtins.contains name.val.text = true
  · simp only [ParseTree.value, hbuiltin, if_true]
    rfl
  · simp only [ParseTree.value, hbuiltin, hvalid.2, if_true]
    rfl

theorem complete_letIn {expr : Reader Expr} (hexpr : Complete scope depth (.expression .sum) expr)
    (word : TokenOf .letWord) (bound : ParseTree .binding) (inWord : TokenOf .inWord)
    (body : ParseTree (.expression .sum)) {staged : List Declaration} {rest : List Token}
    (hnesting : (ParseTree.letIn word bound inWord body).nesting ≤ depth + 1)
    (hvalid : (ParseTree.letIn word bound inWord body).Valid scope staged)
    (hgreedy : (ParseTree.letIn word bound inWord body).Greedy rest) (hparen : NoParen rest) :
    (letForm expr word.val.pos).run
        ⟨bound.tokens ++ inWord.val :: (body.tokens ++ rest), staged⟩ =
      .ok ((ParseTree.letIn word bound inWord body).value scope.declarations.builtins,
        ⟨rest, staged ++ (ParseTree.letIn word bound inWord body).declared
          scope.declarations.builtins⟩) := by
  obtain ⟨hboundNesting, hbodyNesting⟩ := Nat.max_le.mp (Nat.le_of_succ_le_succ hnesting)
  have hbound := (complete_binding hexpr).before inWord (by decide) hboundNesting hvalid.1 hgreedy.1
  have hbody := hexpr body _ rest hbodyNesting hvalid.2 hgreedy.2.1 hgreedy.2.2 hparen
  have hplain : (accept .singleArrow).run
      ⟨bound.tokens ++ inWord.val :: (body.tokens ++ rest), staged⟩ =
        .ok (false, ⟨bound.tokens ++ inWord.val :: (body.tokens ++ rest), staged⟩) := by
    cases bound with
    | binding name equals value =>
      exact run_accept_cons_of_ne (by rw [name.property]; decide) _ _
  rw [letForm, run_bind_of_ok hplain]
  simp only [Bool.false_eq_true, if_false]
  rw [run_bind_of_ok hbound, run_bind_of_ok (run_expect inWord.property _ _),
    run_bind_of_ok hbody, List.append_assoc]
  rfl

theorem complete_letGroup {expr : Reader Expr}
    (hexpr : Complete scope depth (.expression .sum) expr) (word : TokenOf .letWord)
    (arrow : TokenOf .singleArrow) (opening : TokenOf .leftBrace)
    (bindings : ParseTree (.items .binding)) (closing : TokenOf .rightBrace)
    (inWord : TokenOf .inWord) (body : ParseTree (.expression .sum))
    {staged : List Declaration} {rest : List Token}
    (hnesting : (ParseTree.letGroup word arrow opening bindings closing inWord body).nesting ≤
      depth + 1)
    (hvalid : (ParseTree.letGroup word arrow opening bindings closing inWord body).Valid scope
      staged)
    (hgreedy : (ParseTree.letGroup word arrow opening bindings closing inWord body).Greedy rest)
    (hparen : NoParen rest) :
    (letForm expr word.val.pos).run
        ⟨arrow.val :: opening.val :: (bindings.tokens ++ closing.val :: inWord.val ::
          (body.tokens ++ rest)), staged⟩ =
      .ok ((ParseTree.letGroup word arrow opening bindings closing inWord body).value
          scope.declarations.builtins,
        ⟨rest, staged ++ (bindings.declared scope.declarations.builtins ++
          body.declared scope.declarations.builtins)⟩) := by
  obtain ⟨hbindingsNesting, hbodyNesting⟩ := Nat.max_le.mp (Nat.le_of_succ_le_succ hnesting)
  have hbindings := complete_items (.inr rfl) (complete_binding hexpr) ParseTree.head_binding
    bindings closing.property hbindingsNesting hvalid.1 hgreedy.1
  have hbody := hexpr body _ rest hbodyNesting hvalid.2 hgreedy.2.1 hgreedy.2.2 hparen
  rw [letForm, run_bind_of_ok (run_accept_of_eq arrow.property _ _)]
  simp only [if_true]
  rw [run_bind_of_ok (run_expect opening.property _ _), run_bind_of_ok hbindings,
    run_bind_of_ok (run_expect inWord.property _ _), run_bind_of_ok hbody, List.append_assoc]
  rfl

theorem complete_ifForm {expr : Reader Expr}
    (hexpr : Complete scope depth (.expression .sum) expr) (word : TokenOf .ifWord)
    (opening : TokenOf .leftParen) (left : ParseTree (.expression .sum))
    (comparison : TokenOf .comparison) (right : ParseTree (.expression .sum))
    (closing : TokenOf .rightParen) (thenWord : TokenOf .thenWord)
    (thenBranch : ParseTree (.expression .sum)) (elseWord : TokenOf .elseWord)
    (elseBranch : ParseTree (.expression .sum)) {staged : List Declaration} {rest : List Token}
    (hnesting : (ParseTree.ifThenElse word opening left comparison right closing thenWord
      thenBranch elseWord elseBranch).nesting ≤ depth + 1)
    (hvalid : (ParseTree.ifThenElse word opening left comparison right closing thenWord
      thenBranch elseWord elseBranch).Valid scope staged)
    (hgreedy : (ParseTree.ifThenElse word opening left comparison right closing thenWord
      thenBranch elseWord elseBranch).Greedy rest) (hparen : NoParen rest) :
    (ifForm expr word.val.pos).run
        ⟨opening.val :: (left.tokens ++ comparison.val :: (right.tokens ++ closing.val ::
          thenWord.val :: (thenBranch.tokens ++ elseWord.val :: (elseBranch.tokens ++ rest)))),
          staged⟩ =
      .ok ((ParseTree.ifThenElse word opening left comparison right closing thenWord thenBranch
          elseWord elseBranch).value scope.declarations.builtins,
        ⟨rest, staged ++ (ParseTree.ifThenElse word opening left comparison right closing thenWord
          thenBranch elseWord elseBranch).declared scope.declarations.builtins⟩) := by
  simp only [ParseTree.nesting] at hnesting
  have hleft := hexpr.before comparison (by decide) (by omega) hvalid.1 hgreedy.1
  have hright := hexpr.before closing (by decide) (by omega) hvalid.2.1 hgreedy.2.1
  have hthen := hexpr.before elseWord (by decide) (by omega) hvalid.2.2.1 hgreedy.2.2.1
  have helse := hexpr elseBranch _ rest (by omega) hvalid.2.2.2 hgreedy.2.2.2.1 hgreedy.2.2.2.2
    hparen
  rw [ifForm, run_bind_of_ok (run_expect opening.property _ _), run_bind_of_ok hleft,
    run_bind_of_ok (run_expect comparison.property _ _), run_bind_of_ok hright,
    run_bind_of_ok (run_expect closing.property _ _),
    run_bind_of_ok (run_expect thenWord.property _ _), run_bind_of_ok hthen,
    run_bind_of_ok (run_expect elseWord.property _ _), run_bind_of_ok helse]
  simp only [List.append_assoc]
  rfl

theorem complete_functionForm {expr : Scope → Reader Expr}
    (hexpr : ∀ inner : Scope, Complete inner depth (.expression .sum) (expr inner))
    (word : TokenOf .functionWord) (name : TokenOf .functionName)
    (parameters : List (TokenOf .parameter)) (arrow : TokenOf .doubleArrow)
    (body : ParseTree (.expression .sum)) {staged : List Declaration} {rest : List Token}
    (hnesting : (ParseTree.function word name parameters arrow body).nesting ≤ depth + 1)
    (hvalid : (ParseTree.function word name parameters arrow body).Valid scope staged)
    (hgreedy : (ParseTree.function word name parameters arrow body).Greedy rest)
    (hparen : NoParen rest) :
    (functionForm expr scope word.val.pos).run
        ⟨name.val :: (parameters.map (·.val) ++ arrow.val :: (body.tokens ++ rest)), staged⟩ =
      .ok (.endMarker word.val.pos,
        ⟨rest, staged ++ (ParseTree.function word name parameters arrow body).declared
          scope.declarations.builtins⟩) := by
  obtain ⟨hfunction, hstaged, hnodup, hbodyValid⟩ := hvalid
  have hbody := hexpr _ body staged rest (Nat.le_of_succ_le_succ hnesting) hbodyValid hgreedy.1
    hgreedy.2 hparen
  have hfree : ¬ (scope.declarations.isFunction name.val.text = true ∨
      staged.any (·.declaresFunction name.val.text) = true) := by
    rintro (h | h)
    · rw [hfunction] at h
      cases h
    · obtain ⟨declaration, hmem, hname⟩ := List.any_eq_true.mp h
      rw [hstaged declaration hmem] at hname
      cases hname
  have harrow : ∀ token ∈ (arrow.val :: (body.tokens ++ rest)).head?, token.kind ≠ .parameter := by
    intro token htoken
    cases htoken
    rw [arrow.property]
    decide
  rw [functionForm, run_bind_of_ok (run_expect name.property _ _), run_bind_of_ok (run_get _),
    if_neg hfree, run_bind_of_ok (run_parameters hnodup harrow _ _),
    run_bind_of_ok (run_expect arrow.property _ _), run_bind_of_ok hbody,
    run_bind_of_ok (run_stage _ _), ParseTree.declared, ← List.append_assoc]
  rfl

theorem complete_constForm {expr : Reader Expr}
    (hexpr : Complete scope depth (.expression .sum) expr) (word : TokenOf .constWord)
    (bound : ParseTree .binding) {staged : List Declaration} {rest : List Token}
    (hnesting : (ParseTree.const word bound).nesting ≤ depth + 1)
    (hvalid : (ParseTree.const word bound).Valid scope staged)
    (hgreedy : (ParseTree.const word bound).Greedy rest) (hparen : NoParen rest) :
    (constForm expr word.val.pos).run ⟨bound.tokens ++ rest, staged⟩ =
      .ok (.endMarker word.val.pos,
        ⟨rest, staged ++ (ParseTree.const word bound).declared scope.declarations.builtins⟩) := by
  have hbound := complete_binding hexpr bound staged rest (Nat.le_of_succ_le_succ hnesting) hvalid
    hgreedy.1 hgreedy.2 hparen
  rw [constForm, run_bind_of_ok hbound, run_bind_of_ok (run_stage _ _), ParseTree.declared,
    ← List.append_assoc]
  rfl

theorem complete_printForm {expr : Reader Expr}
    (hexpr : Complete scope depth (.expression .sum) expr) (word : TokenOf .printWord)
    (opening : TokenOf .leftParen) (inner : ParseTree (.expression .sum))
    (closing : TokenOf .rightParen) {staged : List Declaration} {rest : List Token}
    (hnesting : (ParseTree.print word opening inner closing).nesting ≤ depth + 1)
    (hvalid : (ParseTree.print word opening inner closing).Valid scope staged)
    (hgreedy : (ParseTree.print word opening inner closing).Greedy rest) :
    (printForm expr word.val.pos).run
        ⟨opening.val :: (inner.tokens ++ closing.val :: rest), staged⟩ =
      .ok (.endMarker word.val.pos,
        ⟨rest, staged ++ inner.declared scope.declarations.builtins⟩) := by
  have hinner := hexpr.before closing (by decide) (Nat.le_of_succ_le_succ hnesting) hvalid hgreedy
  rw [printForm, run_bind_of_ok (run_expect opening.property _ _), run_bind_of_ok hinner,
    run_bind_of_ok (run_expect closing.property _ _)]
  rfl

theorem complete_operand {expr : Scope → Reader Expr} {negated : Reader Expr}
    (hexpr : ∀ inner : Scope, Complete inner depth (.expression .sum) (expr inner))
    (hnegated : Complete scope depth (.expression .operand) negated) :
    Complete scope (depth + 1) (.expression .operand) (operand expr negated scope) := by
  intro tree staged rest hnesting hvalid hgreedy hends hparen
  rw [operand]
  cases tree with
  | chain loose first more => exact absurd rfl loose
  | paren opening inner closing =>
    have hinner := (hexpr scope).before closing (by decide) (Nat.le_of_succ_le_succ hnesting) hvalid
      hgreedy
    rw [ParseTree.tokens, List.cons_append, List.append_assoc, List.singleton_append,
      run_bind_of_ok (run_next_cons _ _ _)]
    simp only [opening.property]
    rw [run_bind_of_ok hinner, run_bind_of_ok (run_expect closing.property _ _)]
    rfl
  | negation minus right =>
    have hright := hnegated right staged rest (Nat.le_of_succ_le_succ hnesting) hvalid hgreedy
      hends hparen
    rw [ParseTree.tokens, List.cons_append, run_bind_of_ok (run_next_cons _ _ _)]
    simp only [minus.property.1, List.mem_singleton.mp minus.property.2, if_true]
    rw [run_bind_of_ok hright]
    rfl
  | number token =>
    obtain ⟨x, hx⟩ := Option.isSome_iff_exists.mp hvalid
    rw [ParseTree.tokens, List.singleton_append, run_bind_of_ok (run_next_cons _ _ _)]
    simp only [token.property, hx, ParseTree.value, ParseTree.declared, List.append_nil]
    rfl
  | string token =>
    rw [ParseTree.tokens, List.singleton_append, run_bind_of_ok (run_next_cons _ _ _)]
    simp only [token.property, ParseTree.declared, List.append_nil]
    rfl
  | access name =>
    have hnoCall : (rest.headD ⟨.eof, "", .unknown⟩).kind ≠ .leftParen := by
      cases rest with
      | nil => decide
      | cons token rest => exact hparen token rfl
    rw [ParseTree.tokens, List.singleton_append, run_bind_of_ok (run_next_cons _ _ _)]
    simp only [name.property]
    rw [run_bind_of_ok (run_peek _), if_neg hnoCall, ParseTree.declared, List.append_nil]
    rfl
  | call name opening args closing =>
    simp only [ParseTree.tokens, List.cons_append, List.append_assoc, List.nil_append]
    rw [run_bind_of_ok (run_next_cons _ _ _)]
    simp only [name.property]
    rw [run_bind_of_ok (run_peek _), List.headD_cons, if_pos opening.property]
    exact complete_call (hexpr scope) name opening args closing hnesting hvalid hgreedy
  | letIn word bound inWord body =>
    simp only [ParseTree.tokens, List.cons_append, List.append_assoc]
    rw [run_bind_of_ok (run_next_cons _ _ _)]
    simp only [word.property]
    exact complete_letIn (hexpr scope) word bound inWord body hnesting hvalid hgreedy hparen
  | letGroup word arrow opening bindings closing inWord body =>
    simp only [ParseTree.tokens, List.cons_append, List.append_assoc]
    rw [run_bind_of_ok (run_next_cons _ _ _)]
    simp only [word.property]
    exact complete_letGroup (hexpr scope) word arrow opening bindings closing inWord body hnesting
      hvalid hgreedy hparen
  | ifThenElse word opening left comparison right closing thenWord thenBranch elseWord elseBranch =>
    simp only [ParseTree.tokens, List.cons_append, List.append_assoc]
    rw [run_bind_of_ok (run_next_cons _ _ _)]
    simp only [word.property]
    exact complete_ifForm (hexpr scope) word opening left comparison right closing thenWord
      thenBranch elseWord elseBranch hnesting hvalid hgreedy hparen
  | function word name parameters arrow body =>
    simp only [ParseTree.tokens, List.cons_append, List.append_assoc]
    rw [run_bind_of_ok (run_next_cons _ _ _)]
    simp only [word.property]
    exact complete_functionForm hexpr word name parameters arrow body hnesting hvalid hgreedy
      hparen
  | const word bound =>
    rw [ParseTree.tokens, List.cons_append, run_bind_of_ok (run_next_cons _ _ _)]
    simp only [word.property]
    exact complete_constForm (hexpr scope) word bound hnesting hvalid hgreedy hparen
  | print word opening inner closing =>
    simp only [ParseTree.tokens, List.cons_append, List.append_assoc, List.nil_append]
    rw [run_bind_of_ok (run_next_cons _ _ _)]
    simp only [word.property]
    exact complete_printForm (hexpr scope) word opening inner closing hnesting hvalid hgreedy

/-- Whatever has a tree of an expression is read as that tree, within its nesting. -/
theorem complete_expression (depth : Nat) (level : Level) (scope : Scope) :
    Complete scope depth (.expression level) (expression depth level scope) := by
  induction depth generalizing level scope with
  | zero =>
    intro tree staged rest hnesting
    cases tree <;> simp [ParseTree.nesting] at hnesting
  | succ depth ih =>
    cases level with
    | operand => exact complete_operand (fun inner ↦ ih .sum inner) (ih .operand scope)
    | _ =>
      intro tree staged rest hnesting hvalid hgreedy hends hparen
      cases tree with
      | chain loose first more =>
        obtain ⟨hfirst, hmore⟩ := Nat.max_le.mp (Nat.le_of_succ_le_succ hnesting)
        rw [ParseTree.tokens, List.append_assoc]
        exact complete_operations (ih _ scope) hfirst hmore hvalid.1 hvalid.2 hgreedy.1 hgreedy.2
          hends hparen

end Reader

end Reckoner
