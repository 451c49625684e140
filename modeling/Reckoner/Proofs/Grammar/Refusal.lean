import Reckoner.Proofs.Grammar.Completeness

/-!
Where a function name is taken, reading stops. If a tree is in order up to a declaration whose
name is built in, in force or declared before it in the statement, then reading its tokens
fails at that name, whatever stands behind it.
-/

set_option autoImplicit false
set_option relaxedAutoImplicit false

namespace Reckoner

/-- Whether a declaration cannot have the name where the given declarations come before it. -/
def Scope.Taken (scope : Scope) (before : List Declaration) (name : String) : Prop :=
  scope.declarations.isFunction name = true ∨
    before.any (·.declaresFunction name) = true

namespace ParseTree

/-- Whether the tree is in order up to the given token, which is the name of a function
declaration and is taken. -/
def Clashes : {phrase : Phrase} → ParseTree phrase → Scope → List Declaration → Token → Prop
  | _, chain _ first more, scope, before, name =>
    first.Clashes scope before name ∨ first.Valid scope before ∧
      more.Clashes scope (before ++ first.declared scope.declarations.builtins) name
  | _, noOperation, _, _, _ => False
  | _, operation _ right more, scope, before, name =>
    right.Clashes scope before name ∨ right.Valid scope before ∧
      more.Clashes scope (before ++ right.declared scope.declarations.builtins) name
  | _, paren _ inner _, scope, before, name => inner.Clashes scope before name
  | _, negation _ right, scope, before, name => right.Clashes scope before name
  | _, number _, _, _, _ => False
  | _, string _, _, _, _ => False
  | _, access _, _, _, _ => False
  | _, call _ _ args _, scope, before, name => args.Clashes scope before name
  | _, letIn _ bound _ body, scope, before, name =>
    bound.Clashes scope before name ∨ bound.Valid scope before ∧
      body.Clashes scope (before ++ bound.declared scope.declarations.builtins) name
  | _, letGroup _ _ _ bindings _ _ body, scope, before, name =>
    bindings.Clashes scope before name ∨ bindings.Valid scope before ∧
      body.Clashes scope (before ++ bindings.declared scope.declarations.builtins) name
  | _, ifThenElse _ _ left _ right _ _ thenBranch _ elseBranch, scope, before, name =>
    let builtins := scope.declarations.builtins
    left.Clashes scope before name ∨ left.Valid scope before ∧
      (right.Clashes scope (before ++ left.declared builtins) name ∨
        right.Valid scope (before ++ left.declared builtins) ∧
          (thenBranch.Clashes scope (before ++ left.declared builtins ++ right.declared builtins)
              name ∨
            thenBranch.Valid scope (before ++ left.declared builtins ++ right.declared builtins) ∧
              elseBranch.Clashes scope (before ++ left.declared builtins ++
                right.declared builtins ++ thenBranch.declared builtins) name))
  | _, function _ word parameters _ body, scope, before, name =>
    scope.Taken before word.val.text ∧ name = word.val ∨
      ¬ scope.Taken before word.val.text ∧ (parameters.map (·.val.text)).Nodup ∧
        body.Clashes { scope with declaring := some word.val.text } before name
  | _, const _ bound, scope, before, name => bound.Clashes scope before name
  | _, print _ _ inner _, scope, before, name => inner.Clashes scope before name
  | _, binding _ _ value, scope, before, name => value.Clashes scope before name
  | _, noItems, _, _, _ => False
  | _, items first more, scope, before, name =>
    first.Clashes scope before name ∨ first.Valid scope before ∧
      more.Clashes scope (before ++ first.declared scope.declarations.builtins) name
  | _, noMoreItems, _, _, _ => False
  | _, moreItems _ first more, scope, before, name =>
    first.Clashes scope before name ∨ first.Valid scope before ∧
      more.Clashes scope (before ++ first.declared scope.declarations.builtins) name

end ParseTree

namespace Reader

variable {α β : Type}

/-- Reading the row fails because the name is taken. -/
def Refuses (reader : Reader α) (row : TokenRow) (name : Token) : Prop :=
  reader.run row = .error (.error ⟨.functionExists, name⟩)

theorem Refuses.bind {reader : Reader α} {row : TokenRow} {name : Token}
    (h : reader.Refuses row name) (next : α → Reader β) : (reader >>= next).Refuses row name :=
  run_bind_of_error h next

theorem refuses_bind_iff {reader : Reader α} {next : α → Reader β} {row middle : TokenRow}
    {value : α} {name : Token} (h : reader.run row = .ok (value, middle)) :
    (reader >>= next).Refuses row name ↔ (next value).Refuses middle name := by
  rw [Refuses, run_bind_of_ok h, Refuses]

/-- The reader refuses a taken name wherever a tree of the phrase has one. -/
def Refusing (scope : Scope) (depth : Nat) (phrase : Phrase) (reader : Reader phrase.Value) :
    Prop :=
  ∀ (tree : ParseTree phrase) (staged : List Declaration) (rest : List Token) (name : Token),
    tree.nesting ≤ depth → tree.Clashes scope staged name → tree.Greedy rest →
      phrase.EndsBefore rest → NoParen rest → reader.Refuses ⟨tree.tokens ++ rest, staged⟩ name

variable {scope : Scope} {depth : Nat} {name : Token}

theorem refuses_operationsWithin {level : Level} {operand : Reader Expr}
    (hcomplete : Complete scope depth (.expression level.tighter) operand)
    (hrefusing : Refusing scope depth (.expression level.tighter) operand)
    (tree : ParseTree (.operations level)) {bound : List Token} {left : Expr}
    {staged : List Declaration} {rest : List Token}
    (hbound : (tree.tokens ++ rest).length ≤ bound.length) (hnesting : tree.nesting ≤ depth)
    (hclash : tree.Clashes scope staged name) (hgreedy : tree.Greedy rest)
    (hends : level.EndsBefore rest) (hparen : NoParen rest) :
    (operationsWithin level.joins operand bound left).Refuses ⟨tree.tokens ++ rest, staged⟩
      name := by
  induction bound generalizing tree left staged with
  | nil =>
    cases tree with
    | noOperation => exact hclash.elim
    | operation sign right more => simp [ParseTree.tokens] at hbound
  | cons bounding bound ih =>
    cases tree with
    | noOperation => exact hclash.elim
    | operation sign right more =>
      obtain ⟨hrightNesting, hmoreNesting⟩ := Nat.max_le.mp hnesting
      have hrightEnds := more.endsBefore_operations hends
      have hrightParen := more.noParen_operations hparen
      rw [operationsWithin, ParseTree.tokens, List.cons_append, List.append_assoc,
        refuses_bind_iff (run_acceptOperator sign.property _ _)]
      rcases hclash with hright | ⟨hvalid, hmore⟩
      · exact (hrefusing right staged _ name hrightNesting hright hgreedy.1 hrightEnds
          hrightParen).bind _
      · dsimp only
        rw [refuses_bind_iff (hcomplete right staged _ hrightNesting hvalid hgreedy.1 hrightEnds
          hrightParen)]
        refine ih more ?_ hmoreNesting hmore hgreedy.2
        simp only [ParseTree.tokens, List.cons_append, List.append_assoc, List.length_cons,
          List.length_append] at hbound ⊢
        omega

theorem refuses_operations {level : Level} {operand : Reader Expr}
    (hcomplete : Complete scope depth (.expression level.tighter) operand)
    (hrefusing : Refusing scope depth (.expression level.tighter) operand)
    {first : ParseTree (.expression level.tighter)} {more : ParseTree (.operations level)}
    {staged : List Declaration} {rest : List Token} (hfirstNesting : first.nesting ≤ depth)
    (hmoreNesting : more.nesting ≤ depth)
    (hclash : first.Clashes scope staged name ∨ first.Valid scope staged ∧
      more.Clashes scope (staged ++ first.declared scope.declarations.builtins) name)
    (hfirstGreedy : first.Greedy (more.tokens ++ rest)) (hmoreGreedy : more.Greedy rest)
    (hends : level.EndsBefore rest) (hparen : NoParen rest) :
    (operations level.joins operand).Refuses ⟨first.tokens ++ (more.tokens ++ rest), staged⟩
      name := by
  have hfirstEnds := more.endsBefore_operations hends
  have hfirstParen := more.noParen_operations hparen
  rcases hclash with hfirst | ⟨hvalid, hmore⟩
  · exact (hrefusing first staged _ name hfirstNesting hfirst hfirstGreedy hfirstEnds
      hfirstParen).bind _
  · rw [operations, refuses_bind_iff (hcomplete first staged _ hfirstNesting hvalid hfirstGreedy
      hfirstEnds hfirstParen), refuses_bind_iff (run_get _)]
    exact refuses_operationsWithin hcomplete hrefusing more Nat.le.refl hmoreNesting hmore
      hmoreGreedy hends hparen

theorem refuses_moreItems {item : Phrase} {close : TokenKind} (hclose : close.ClosesItems)
    {reader : Reader item.Value} (hcomplete : Complete scope depth item reader)
    (hrefusing : Refusing scope depth item reader) (tree : ParseTree (.moreItems item))
    {closing : Token} (hclosing : closing.kind = close) {bound : List Token}
    {staged : List Declaration} {rest : List Token}
    (hbound : (tree.tokens ++ closing :: rest).length ≤ bound.length)
    (hnesting : tree.nesting ≤ depth) (hclash : tree.Clashes scope staged name)
    (hgreedy : tree.Greedy (closing :: rest)) :
    (itemsWithin close reader bound true).Refuses ⟨tree.tokens ++ closing :: rest, staged⟩
      name := by
  induction bound generalizing tree staged with
  | nil => simp at hbound
  | cons bounding bound ih =>
    cases tree with
    | noMoreItems => exact hclash.elim
    | moreItems comma first more =>
      obtain ⟨hfirstNesting, hmoreNesting⟩ := Nat.max_le.mp hnesting
      have hfirstEnds : item.EndsBefore (more.tokens ++ closing :: rest) :=
        more.endsBefore_moreItems (hclosing ▸ hclose) item
      have hfirstParen : NoParen (more.tokens ++ closing :: rest) :=
        more.noParen_moreItems (hclosing ▸ hclose)
      have hcomma : comma.val.kind ≠ close := by
        rw [comma.property]
        exact hclose.ne_comma.symm
      rw [itemsWithin, ParseTree.tokens, List.cons_append, List.append_assoc,
        refuses_bind_iff (run_accept_cons_of_ne hcomma _ _)]
      simp only [Bool.false_eq_true, if_false, if_true]
      rw [refuses_bind_iff (run_expect comma.property _ _)]
      rcases hclash with hfirst | ⟨hvalid, hmore⟩
      · exact (hrefusing first staged _ name hfirstNesting hfirst hgreedy.1 hfirstEnds
          hfirstParen).bind _
      · rw [refuses_bind_iff (hcomplete first staged _ hfirstNesting hvalid hgreedy.1 hfirstEnds
          hfirstParen)]
        refine (ih more ?_ hmoreNesting hmore hgreedy.2).bind _
        simp only [ParseTree.tokens, List.cons_append, List.append_assoc, List.length_cons,
          List.length_append] at hbound ⊢
        omega

theorem refuses_items {item : Phrase} {close : TokenKind} (hclose : close.ClosesItems)
    {reader : Reader item.Value} (hcomplete : Complete scope depth item reader)
    (hrefusing : Refusing scope depth item reader)
    (hstart : ∀ tree : ParseTree item, ∃ token more, tree.tokens = token :: more ∧
      ¬ token.kind.ClosesItems)
    (tree : ParseTree (.items item)) {closing : Token} (hclosing : closing.kind = close)
    {staged : List Declaration} {rest : List Token} (hnesting : tree.nesting ≤ depth)
    (hclash : tree.Clashes scope staged name) (hgreedy : tree.Greedy (closing :: rest)) :
    (items close reader).Refuses ⟨tree.tokens ++ closing :: rest, staged⟩ name := by
  rw [items, refuses_bind_iff (run_get _)]
  dsimp only
  cases tree with
  | noItems => exact hclash.elim
  | items first more =>
    obtain ⟨hfirstNesting, hmoreNesting⟩ := Nat.max_le.mp hnesting
    have hfirstEnds : item.EndsBefore (more.tokens ++ closing :: rest) :=
      more.endsBefore_moreItems (hclosing ▸ hclose) item
    have hfirstParen : NoParen (more.tokens ++ closing :: rest) :=
      more.noParen_moreItems (hclosing ▸ hclose)
    obtain ⟨token, behind, htokens, htoken⟩ := hstart first
    have hother : token.kind ≠ close := fun h ↦ htoken (h ▸ hclose)
    rw [ParseTree.tokens, List.append_assoc, htokens, List.cons_append, itemsWithin,
      refuses_bind_iff (run_accept_cons_of_ne hother _ _)]
    simp only [Bool.false_eq_true, if_false]
    rw [← List.cons_append, ← htokens]
    rcases hclash with hfirst | ⟨hvalid, hmore⟩
    · exact (hrefusing first staged _ name hfirstNesting hfirst hgreedy.1 hfirstEnds
        hfirstParen).bind _
    · rw [refuses_bind_iff (hcomplete first staged _ hfirstNesting hvalid hgreedy.1 hfirstEnds
        hfirstParen)]
      refine (refuses_moreItems hclose hcomplete hrefusing more hclosing ?_ hmoreNesting hmore
        hgreedy.2).bind _
      simp only [List.length_append]
      omega

theorem refusing_binding {expr : Reader Expr}
    (hrefusing : Refusing scope depth (.expression .sum) expr) :
    Refusing scope depth .binding (binding expr) := by
  intro tree staged rest name hnesting hclash hgreedy hends hparen
  cases tree with
  | binding key equals value =>
    rw [binding, ParseTree.tokens, List.cons_append, List.cons_append,
      refuses_bind_iff (run_expect key.property _ _),
      refuses_bind_iff (run_expectEquals equals.property _ _)]
    exact (hrefusing value staged rest name hnesting hclash hgreedy hends hparen).bind _

/-- A phrase that is followed by a token which can neither carry it on nor open a call. -/
theorem Refusing.before {phrase : Phrase} {reader : Reader phrase.Value}
    (hrefusing : Refusing scope depth phrase reader) {tree : ParseTree phrase}
    {staged : List Declaration} {kind : TokenKind} (token : TokenOf kind) {rest : List Token}
    (hkind : kind ≠ .operator ∧ kind ≠ .leftParen) (hnesting : tree.nesting ≤ depth)
    (hclash : tree.Clashes scope staged name) (hgreedy : tree.Greedy (token.val :: rest)) :
    reader.Refuses ⟨tree.tokens ++ token.val :: rest, staged⟩ name := by
  obtain ⟨token, rfl⟩ := token
  exact hrefusing tree staged _ name hnesting hclash hgreedy (phrase.endsBefore_cons hkind.1 _)
    (noParen_cons hkind.2 _)

theorem refuses_letIn {expr : Reader Expr}
    (hcomplete : Complete scope depth (.expression .sum) expr)
    (hrefusing : Refusing scope depth (.expression .sum) expr) (word : TokenOf .letWord)
    (bound : ParseTree .binding) (inWord : TokenOf .inWord) (body : ParseTree (.expression .sum))
    {staged : List Declaration} {rest : List Token}
    (hnesting : (ParseTree.letIn word bound inWord body).nesting ≤ depth + 1)
    (hclash : (ParseTree.letIn word bound inWord body).Clashes scope staged name)
    (hgreedy : (ParseTree.letIn word bound inWord body).Greedy rest) (hparen : NoParen rest) :
    (letForm expr word.val.pos).Refuses
      ⟨bound.tokens ++ inWord.val :: (body.tokens ++ rest), staged⟩ name := by
  obtain ⟨hboundNesting, hbodyNesting⟩ := Nat.max_le.mp (Nat.le_of_succ_le_succ hnesting)
  have hplain : (accept .singleArrow).run
      ⟨bound.tokens ++ inWord.val :: (body.tokens ++ rest), staged⟩ =
        .ok (false, ⟨bound.tokens ++ inWord.val :: (body.tokens ++ rest), staged⟩) := by
    cases bound with
    | binding key equals value =>
      exact run_accept_cons_of_ne (by rw [key.property]; decide) _ _
  rw [letForm, refuses_bind_iff hplain]
  simp only [Bool.false_eq_true, if_false]
  rcases hclash with hbound | ⟨hvalid, hbody⟩
  · exact ((refusing_binding hrefusing).before inWord (by decide) hboundNesting hbound
      hgreedy.1).bind _
  · rw [refuses_bind_iff ((complete_binding hcomplete).before inWord (by decide) hboundNesting
      hvalid hgreedy.1), refuses_bind_iff (run_expect inWord.property _ _)]
    exact (hrefusing body _ rest name hbodyNesting hbody hgreedy.2.1 hgreedy.2.2 hparen).bind _

theorem refuses_letGroup {expr : Reader Expr}
    (hcomplete : Complete scope depth (.expression .sum) expr)
    (hrefusing : Refusing scope depth (.expression .sum) expr) (word : TokenOf .letWord)
    (arrow : TokenOf .singleArrow) (opening : TokenOf .leftBrace)
    (bindings : ParseTree (.items .binding)) (closing : TokenOf .rightBrace)
    (inWord : TokenOf .inWord) (body : ParseTree (.expression .sum))
    {staged : List Declaration} {rest : List Token}
    (hnesting : (ParseTree.letGroup word arrow opening bindings closing inWord body).nesting ≤
      depth + 1)
    (hclash : (ParseTree.letGroup word arrow opening bindings closing inWord body).Clashes scope
      staged name)
    (hgreedy : (ParseTree.letGroup word arrow opening bindings closing inWord body).Greedy rest)
    (hparen : NoParen rest) :
    (letForm expr word.val.pos).Refuses
      ⟨arrow.val :: opening.val :: (bindings.tokens ++ closing.val :: inWord.val ::
        (body.tokens ++ rest)), staged⟩ name := by
  obtain ⟨hbindingsNesting, hbodyNesting⟩ := Nat.max_le.mp (Nat.le_of_succ_le_succ hnesting)
  rw [letForm, refuses_bind_iff (run_accept_of_eq arrow.property _ _)]
  simp only [if_true]
  rw [refuses_bind_iff (run_expect opening.property _ _)]
  rcases hclash with hbindings | ⟨hvalid, hbody⟩
  · exact (refuses_items (.inr rfl) (complete_binding hcomplete) (refusing_binding hrefusing)
      ParseTree.head_binding bindings closing.property hbindingsNesting hbindings
      hgreedy.1).bind _
  · rw [refuses_bind_iff (complete_items (.inr rfl) (complete_binding hcomplete)
      ParseTree.head_binding bindings closing.property hbindingsNesting hvalid hgreedy.1),
      refuses_bind_iff (run_expect inWord.property _ _)]
    exact (hrefusing body _ rest name hbodyNesting hbody hgreedy.2.1 hgreedy.2.2 hparen).bind _

theorem refuses_ifForm {expr : Reader Expr}
    (hcomplete : Complete scope depth (.expression .sum) expr)
    (hrefusing : Refusing scope depth (.expression .sum) expr) (word : TokenOf .ifWord)
    (opening : TokenOf .leftParen) (left : ParseTree (.expression .sum))
    (comparison : TokenOf .comparison) (right : ParseTree (.expression .sum))
    (closing : TokenOf .rightParen) (thenWord : TokenOf .thenWord)
    (thenBranch : ParseTree (.expression .sum)) (elseWord : TokenOf .elseWord)
    (elseBranch : ParseTree (.expression .sum)) {staged : List Declaration} {rest : List Token}
    (hnesting : (ParseTree.ifThenElse word opening left comparison right closing thenWord
      thenBranch elseWord elseBranch).nesting ≤ depth + 1)
    (hclash : (ParseTree.ifThenElse word opening left comparison right closing thenWord
      thenBranch elseWord elseBranch).Clashes scope staged name)
    (hgreedy : (ParseTree.ifThenElse word opening left comparison right closing thenWord
      thenBranch elseWord elseBranch).Greedy rest) (hparen : NoParen rest) :
    (ifForm expr word.val.pos).Refuses
      ⟨opening.val :: (left.tokens ++ comparison.val :: (right.tokens ++ closing.val ::
        thenWord.val :: (thenBranch.tokens ++ elseWord.val :: (elseBranch.tokens ++ rest)))),
        staged⟩ name := by
  simp only [ParseTree.nesting] at hnesting
  rw [ifForm, refuses_bind_iff (run_expect opening.property _ _)]
  rcases hclash with hleft | ⟨hleft, hclash⟩
  · exact (hrefusing.before comparison (by decide) (by omega) hleft hgreedy.1).bind _
  rw [refuses_bind_iff (hcomplete.before comparison (by decide) (by omega) hleft hgreedy.1),
    refuses_bind_iff (run_expect comparison.property _ _)]
  rcases hclash with hright | ⟨hright, hclash⟩
  · exact (hrefusing.before closing (by decide) (by omega) hright hgreedy.2.1).bind _
  rw [refuses_bind_iff (hcomplete.before closing (by decide) (by omega) hright hgreedy.2.1),
    refuses_bind_iff (run_expect closing.property _ _),
    refuses_bind_iff (run_expect thenWord.property _ _)]
  rcases hclash with hthen | ⟨hthen, helse⟩
  · exact (hrefusing.before elseWord (by decide) (by omega) hthen hgreedy.2.2.1).bind _
  rw [refuses_bind_iff (hcomplete.before elseWord (by decide) (by omega) hthen hgreedy.2.2.1),
    refuses_bind_iff (run_expect elseWord.property _ _)]
  exact (hrefusing elseBranch _ rest name (by omega) helse hgreedy.2.2.2.1 hgreedy.2.2.2.2
    hparen).bind _

theorem refuses_functionForm {expr : Scope → Reader Expr}
    (hrefusing : ∀ inner : Scope, Refusing inner depth (.expression .sum) (expr inner))
    (word : TokenOf .functionWord) (key : TokenOf .functionName)
    (parameters : List (TokenOf .parameter)) (arrow : TokenOf .doubleArrow)
    (body : ParseTree (.expression .sum)) {staged : List Declaration} {rest : List Token}
    (hnesting : (ParseTree.function word key parameters arrow body).nesting ≤ depth + 1)
    (hclash : (ParseTree.function word key parameters arrow body).Clashes scope staged name)
    (hgreedy : (ParseTree.function word key parameters arrow body).Greedy rest)
    (hparen : NoParen rest) :
    (functionForm expr scope word.val.pos).Refuses
      ⟨key.val :: (parameters.map (·.val) ++ arrow.val :: (body.tokens ++ rest)), staged⟩
      name := by
  rw [functionForm, refuses_bind_iff (run_expect key.property _ _), refuses_bind_iff (run_get _)]
  rcases hclash with ⟨htaken, rfl⟩ | ⟨hfree, hnodup, hbody⟩
  · exact (congrFun (if_pos htaken) _).trans (run_fail _ _ _)
  · have harrow : ∀ token ∈ (arrow.val :: (body.tokens ++ rest)).head?,
        token.kind ≠ .parameter := by
      intro token htoken
      cases htoken
      rw [arrow.property]
      decide
    refine (congrFun (if_neg hfree) _).trans ?_
    change Refuses _ _ _
    rw [refuses_bind_iff (run_parameters hnodup harrow _ _),
      refuses_bind_iff (run_expect arrow.property _ _)]
    exact (hrefusing _ body staged rest name (Nat.le_of_succ_le_succ hnesting) hbody hgreedy.1
      hgreedy.2 hparen).bind _

theorem refusing_operand {expr : Scope → Reader Expr} {negated : Reader Expr}
    (hcomplete : Complete scope depth (.expression .sum) (expr scope))
    (hrefusing : ∀ inner : Scope, Refusing inner depth (.expression .sum) (expr inner))
    (hnegated : Refusing scope depth (.expression .operand) negated) :
    Refusing scope (depth + 1) (.expression .operand) (operand expr negated scope) := by
  intro tree staged rest name hnesting hclash hgreedy hends hparen
  rw [operand]
  cases tree with
  | chain loose first more => exact absurd rfl loose
  | number token => exact hclash.elim
  | string token => exact hclash.elim
  | access key => exact hclash.elim
  | paren opening inner closing =>
    rw [ParseTree.tokens, List.cons_append, List.append_assoc, List.singleton_append,
      refuses_bind_iff (run_next_cons _ _ _)]
    simp only [opening.property]
    exact ((hrefusing scope).before closing (by decide) (Nat.le_of_succ_le_succ hnesting) hclash
      hgreedy).bind _
  | negation minus right =>
    rw [ParseTree.tokens, List.cons_append, refuses_bind_iff (run_next_cons _ _ _)]
    simp only [minus.property.1, List.mem_singleton.mp minus.property.2, if_true]
    exact (hnegated right staged rest name (Nat.le_of_succ_le_succ hnesting) hclash hgreedy hends
      hparen).bind _
  | call key opening args closing =>
    simp only [ParseTree.tokens, List.cons_append, List.append_assoc, List.nil_append]
    rw [refuses_bind_iff (run_next_cons _ _ _)]
    simp only [key.property]
    rw [refuses_bind_iff (run_peek _), List.headD_cons, if_pos opening.property, call,
      refuses_bind_iff (run_skip _ _ _)]
    exact (refuses_items (.inl rfl) hcomplete (hrefusing scope) ParseTree.head_expression args
      closing.property (Nat.le_of_succ_le_succ hnesting) hclash hgreedy).bind _
  | letIn word bound inWord body =>
    simp only [ParseTree.tokens, List.cons_append, List.append_assoc]
    rw [refuses_bind_iff (run_next_cons _ _ _)]
    simp only [word.property]
    exact refuses_letIn hcomplete (hrefusing scope) word bound inWord body hnesting hclash hgreedy
      hparen
  | letGroup word arrow opening bindings closing inWord body =>
    simp only [ParseTree.tokens, List.cons_append, List.append_assoc]
    rw [refuses_bind_iff (run_next_cons _ _ _)]
    simp only [word.property]
    exact refuses_letGroup hcomplete (hrefusing scope) word arrow opening bindings closing inWord
      body hnesting hclash hgreedy hparen
  | ifThenElse word opening left comparison right closing thenWord thenBranch elseWord elseBranch =>
    simp only [ParseTree.tokens, List.cons_append, List.append_assoc]
    rw [refuses_bind_iff (run_next_cons _ _ _)]
    simp only [word.property]
    exact refuses_ifForm hcomplete (hrefusing scope) word opening left comparison right closing
      thenWord thenBranch elseWord elseBranch hnesting hclash hgreedy hparen
  | function word key parameters arrow body =>
    simp only [ParseTree.tokens, List.cons_append, List.append_assoc]
    rw [refuses_bind_iff (run_next_cons _ _ _)]
    simp only [word.property]
    exact refuses_functionForm hrefusing word key parameters arrow body hnesting hclash hgreedy
      hparen
  | const word bound =>
    rw [ParseTree.tokens, List.cons_append, refuses_bind_iff (run_next_cons _ _ _)]
    simp only [word.property]
    exact (refusing_binding (hrefusing scope) bound staged rest name
      (Nat.le_of_succ_le_succ hnesting) hclash hgreedy.1 hgreedy.2 hparen).bind _
  | print word opening inner closing =>
    simp only [ParseTree.tokens, List.cons_append, List.append_assoc, List.nil_append]
    rw [refuses_bind_iff (run_next_cons _ _ _)]
    simp only [word.property]
    rw [printForm, refuses_bind_iff (run_expect opening.property _ _)]
    exact ((hrefusing scope).before closing (by decide) (Nat.le_of_succ_le_succ hnesting) hclash
      hgreedy).bind _

/-- A taken name is refused at every level, within the nesting of the tree. -/
theorem refusing_expression (depth : Nat) (level : Level) (scope : Scope) :
    Refusing scope depth (.expression level) (expression depth level scope) := by
  induction depth generalizing level scope with
  | zero =>
    intro tree staged rest name hnesting
    cases tree <;> simp [ParseTree.nesting] at hnesting
  | succ depth ih =>
    cases level with
    | operand =>
      exact refusing_operand (complete_expression depth .sum scope) (fun inner ↦ ih .sum inner)
        (ih .operand scope)
    | _ =>
      intro tree staged rest name hnesting hclash hgreedy hends hparen
      cases tree with
      | chain loose first more =>
        obtain ⟨hfirst, hmore⟩ := Nat.max_le.mp (Nat.le_of_succ_le_succ hnesting)
        rw [ParseTree.tokens, List.append_assoc]
        exact refuses_operations (complete_expression depth _ scope) (ih _ scope) hfirst hmore
          hclash hgreedy.1 hgreedy.2 hends hparen

end Reader

end Reckoner
