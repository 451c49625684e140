import Reckoner.Proofs.Grammar.Completeness

/-!
Greedy trees are unambiguous. What stands behind a tree is split off the tokens in one way
only, and no other greedy tree derives what is in front of it. The proof goes through the
forms as they are read: the first token tells the form of an operand, and each part of it
ends where the token behind that part stands.
-/

set_option autoImplicit false
set_option relaxedAutoImplicit false

namespace Reckoner

/-- An operation cannot start where operations end. -/
theorem Level.EndsBefore.not_operation {level : Level} {sign : OperatorOf level.signs}
    {rest : List Token} (h : level.EndsBefore (sign.val :: rest)) : False :=
  h sign.val rfl sign.property.1 ((level.mem_reach _).mpr (.inl sign.property.2))

/-- Whether rows can be made of the phrase. -/
def Phrase.IsItem : Phrase → Prop
  | expression _ => True
  | operations _ => False
  | binding => True
  | items _ => False
  | moreItems _ => False

/-- What stands behind a phrase where it is clear that nothing more belongs to it. -/
def Phrase.StopsBefore : Phrase → List Token → Prop
  | expression level, rest => level.EndsBefore rest ∧ NoParen rest
  | operations level, rest => level.EndsBefore rest ∧ NoParen rest
  | binding, rest => Level.sum.EndsBefore rest ∧ NoParen rest
  | items item, rest =>
    item.IsItem ∧ ∃ closing behind, rest = closing :: behind ∧ closing.kind.ClosesItems
  | moreItems item, rest =>
    item.IsItem ∧ ∃ closing behind, rest = closing :: behind ∧ closing.kind.ClosesItems

theorem Phrase.IsItem.stopsBefore {phrase : Phrase} (h : phrase.IsItem) {rest : List Token}
    (hends : phrase.EndsBefore rest) (hparen : NoParen rest) : phrase.StopsBefore rest := by
  cases phrase with
  | expression level => exact ⟨hends, hparen⟩
  | binding => exact ⟨hends, hparen⟩
  | operations level => exact h.elim
  | items item => exact h.elim
  | moreItems item => exact h.elim

namespace ParseTree

/-- Every item starts with a token, and that token closes no row. -/
theorem head_item {item : Phrase} (h : item.IsItem) (tree : ParseTree item) :
    ∃ token more, tree.tokens = token :: more ∧ ¬ token.kind.ClosesItems := by
  cases item with
  | expression level => exact tree.head_expression
  | binding => exact tree.head_binding
  | operations level => exact h.elim
  | items item => exact h.elim
  | moreItems item => exact h.elim

/-- No other greedy tree derives the front of tokens that start with those of the tree. -/
def Determined {phrase : Phrase} (tree : ParseTree phrase) : Prop :=
  ∀ (other : ParseTree phrase) (rest rest' : List Token),
    tree.tokens ++ rest = other.tokens ++ rest' → tree.Greedy rest → other.Greedy rest' →
      phrase.StopsBefore rest → phrase.StopsBefore rest' → tree = other ∧ rest = rest'

/-- The first token of an operand tells its form. -/
theorem headKind_eq {tree other : ParseTree (.expression .operand)} {rest rest' : List Token}
    (h : tree.tokens ++ rest = other.tokens ++ rest') : tree.headKind = other.headKind := by
  obtain ⟨token, more, htokens, hkind⟩ := tree.tokens_eq_cons
  obtain ⟨token', more', htokens', hkind'⟩ := other.tokens_eq_cons
  rw [htokens, htokens', List.cons_append, List.cons_append, List.cons.injEq] at h
  rw [← hkind, ← hkind', h.1]

/-- An item that is followed by a token which cannot carry it on. -/
theorem Determined.before {item : Phrase} {tree other : ParseTree item}
    (htree : tree.Determined) (hitem : item.IsItem) {kind : TokenKind}
    (hkind : kind ≠ .operator ∧ kind ≠ .leftParen) {token token' : TokenOf kind}
    {rest rest' : List Token}
    (h : tree.tokens ++ token.val :: rest = other.tokens ++ token'.val :: rest')
    (hgreedy : tree.Greedy (token.val :: rest)) (hgreedy' : other.Greedy (token'.val :: rest')) :
    tree = other ∧ token = token' ∧ rest = rest' := by
  have hstops (token : TokenOf kind) (rest : List Token) :
      item.StopsBefore (token.val :: rest) := by
    obtain ⟨token, rfl⟩ := token
    exact hitem.stopsBefore (item.endsBefore_cons hkind.1 _) (noParen_cons hkind.2 _)
  obtain ⟨htree, hrest⟩ := htree other _ _ h hgreedy hgreedy' (hstops _ _) (hstops _ _)
  rw [List.cons.injEq] at hrest
  exact ⟨htree, Subtype.ext hrest.1, hrest.2⟩

/-- Items that are followed by the token which closes their row. -/
theorem Determined.closed {item : Phrase} {tree other : ParseTree (.items item)}
    (htree : tree.Determined) (hitem : item.IsItem) {kind : TokenKind}
    (hkind : kind.ClosesItems) {closing closing' : TokenOf kind} {rest rest' : List Token}
    (h : tree.tokens ++ closing.val :: rest = other.tokens ++ closing'.val :: rest')
    (hgreedy : tree.Greedy (closing.val :: rest))
    (hgreedy' : other.Greedy (closing'.val :: rest')) :
    tree = other ∧ closing = closing' ∧ rest = rest' := by
  have hstops (closing : TokenOf kind) (rest : List Token) :
      (Phrase.items item).StopsBefore (closing.val :: rest) :=
    ⟨hitem, closing.val, rest, rfl, closing.property.symm ▸ hkind⟩
  obtain ⟨htree, hrest⟩ := htree other _ _ h hgreedy hgreedy' (hstops _ _) (hstops _ _)
  rw [List.cons.injEq] at hrest
  exact ⟨htree, Subtype.ext hrest.1, hrest.2⟩

/-- An operand and the operations behind it. -/
theorem Determined.operations {level : Level} {first first' : ParseTree (.expression level.tighter)}
    {more more' : ParseTree (.operations level)} (hfirst : first.Determined)
    (hmore : more.Determined) {rest rest' : List Token}
    (h : first.tokens ++ (more.tokens ++ rest) = first'.tokens ++ (more'.tokens ++ rest'))
    (hgreedy : first.Greedy (more.tokens ++ rest) ∧ more.Greedy rest)
    (hgreedy' : first'.Greedy (more'.tokens ++ rest') ∧ more'.Greedy rest')
    (hstops : level.EndsBefore rest ∧ NoParen rest)
    (hstops' : level.EndsBefore rest' ∧ NoParen rest') :
    first = first' ∧ more = more' ∧ rest = rest' := by
  obtain ⟨rfl, hbehind⟩ := hfirst first' _ _ h hgreedy.1 hgreedy'.1
    ⟨more.endsBefore_operations hstops.1, more.noParen_operations hstops.2⟩
    ⟨more'.endsBefore_operations hstops'.1, more'.noParen_operations hstops'.2⟩
  exact ⟨rfl, hmore more' _ _ hbehind hgreedy.2 hgreedy'.2 hstops hstops'⟩

theorem determined_chain {level : Level} {loose : level ≠ .operand}
    {first : ParseTree (.expression level.tighter)} {more : ParseTree (.operations level)}
    (hfirst : first.Determined) (hmore : more.Determined) :
    (chain loose first more).Determined := by
  intro other rest rest' h hgreedy hgreedy' hstops hstops'
  have hparts (first' : ParseTree (.expression level.tighter))
      (more' : ParseTree (.operations level))
      (h : first.tokens ++ more.tokens ++ rest = first'.tokens ++ more'.tokens ++ rest')
      (hgreedy' : first'.Greedy (more'.tokens ++ rest') ∧ more'.Greedy rest') :
      first = first' ∧ more = more' ∧ rest = rest' := by
    rw [List.append_assoc, List.append_assoc] at h
    exact hfirst.operations hmore h hgreedy hgreedy' hstops hstops'
  cases other with
  | chain loose' first' more' =>
    obtain ⟨rfl, rfl, hrest⟩ := hparts first' more' h hgreedy'
    exact ⟨rfl, hrest⟩
  | _ => exact absurd rfl loose

theorem determined_operation {level : Level} {sign : OperatorOf level.signs}
    {right : ParseTree (.expression level.tighter)} {more : ParseTree (.operations level)}
    (hright : right.Determined) (hmore : more.Determined) :
    (operation sign right more).Determined := by
  intro other rest rest' h hgreedy hgreedy' hstops hstops'
  cases other with
  | noOperation =>
    rw [tokens, tokens, List.nil_append, List.cons_append] at h
    rw [← h] at hstops'
    exact hstops'.1.not_operation.elim
  | operation sign' right' more' =>
    simp only [tokens, List.cons_append, List.append_assoc, List.cons.injEq] at h
    obtain ⟨hsign, h⟩ := h
    obtain ⟨rfl, rfl, hrest⟩ := hright.operations hmore h hgreedy hgreedy' hstops hstops'
    exact ⟨by rw [Subtype.ext hsign], hrest⟩

theorem determined_noOperation {level : Level} :
    (noOperation : ParseTree (.operations level)).Determined := by
  intro other rest rest' h hgreedy hgreedy' hstops hstops'
  cases other with
  | noOperation => exact ⟨rfl, h⟩
  | operation sign right more =>
    rw [tokens, tokens, List.nil_append, List.cons_append] at h
    rw [h] at hstops
    exact hstops.1.not_operation.elim

theorem determined_paren {opening : TokenOf .leftParen} {inner : ParseTree (.expression .sum)}
    {closing : TokenOf .rightParen} (hinner : inner.Determined) :
    (paren opening inner closing).Determined := by
  intro other rest rest' h hgreedy hgreedy' _ _
  have hkind := headKind_eq h
  cases other with
  | chain loose => exact absurd rfl loose
  | paren opening' inner' closing' =>
    simp only [tokens, List.cons_append, List.append_assoc, List.nil_append, List.cons.injEq] at h
    obtain ⟨hopening, h⟩ := h
    obtain ⟨rfl, rfl, hrest⟩ := hinner.before trivial (by decide) h hgreedy hgreedy'
    exact ⟨by rw [Subtype.ext hopening], hrest⟩
  | _ => cases hkind

theorem determined_negation {minus : OperatorOf ["-"]} {right : ParseTree (.expression .operand)}
    (hright : right.Determined) : (negation minus right).Determined := by
  intro other rest rest' h hgreedy hgreedy' hstops hstops'
  have hkind := headKind_eq h
  cases other with
  | chain loose => exact absurd rfl loose
  | negation minus' right' =>
    simp only [tokens, List.cons_append, List.cons.injEq] at h
    obtain ⟨hminus, h⟩ := h
    obtain ⟨rfl, hrest⟩ := hright right' _ _ h hgreedy hgreedy' hstops hstops'
    exact ⟨by rw [Subtype.ext hminus], hrest⟩
  | _ => cases hkind

theorem determined_number (token : TokenOf .number) : (number token).Determined := by
  intro other rest rest' h hgreedy hgreedy' _ _
  have hkind := headKind_eq h
  cases other with
  | chain loose => exact absurd rfl loose
  | number token' =>
    simp only [tokens, List.cons_append, List.nil_append, List.cons.injEq] at h
    exact ⟨by rw [Subtype.ext h.1], h.2⟩
  | _ => cases hkind

theorem determined_string (token : TokenOf .string) : (string token).Determined := by
  intro other rest rest' h hgreedy hgreedy' _ _
  have hkind := headKind_eq h
  cases other with
  | chain loose => exact absurd rfl loose
  | string token' =>
    simp only [tokens, List.cons_append, List.nil_append, List.cons.injEq] at h
    exact ⟨by rw [Subtype.ext h.1], h.2⟩
  | _ => cases hkind

/-- A name is not a call, because no parenthesis may stand behind it. -/
theorem determined_access (name : TokenOf .identifier) : (access name).Determined := by
  intro other rest rest' h hgreedy hgreedy' hstops _
  have hkind := headKind_eq h
  cases other with
  | chain loose => exact absurd rfl loose
  | access name' =>
    simp only [tokens, List.cons_append, List.nil_append, List.cons.injEq] at h
    exact ⟨by rw [Subtype.ext h.1], h.2⟩
  | call name' opening' args' closing' =>
    simp only [tokens, List.cons_append, List.nil_append, List.cons.injEq] at h
    rw [h.2] at hstops
    exact absurd opening'.property (hstops.2 opening'.val rfl)
  | _ => cases hkind

theorem determined_call {name : TokenOf .identifier} {opening : TokenOf .leftParen}
    {args : ParseTree (.items (.expression .sum))} {closing : TokenOf .rightParen}
    (hargs : args.Determined) : (call name opening args closing).Determined := by
  intro other rest rest' h hgreedy hgreedy' _ hstops'
  have hkind := headKind_eq h
  cases other with
  | chain loose => exact absurd rfl loose
  | access name' =>
    simp only [tokens, List.cons_append, List.nil_append, List.cons.injEq] at h
    rw [← h.2] at hstops'
    exact absurd opening.property (hstops'.2 opening.val rfl)
  | call name' opening' args' closing' =>
    simp only [tokens, List.cons_append, List.append_assoc, List.nil_append, List.cons.injEq] at h
    obtain ⟨hname, hopening, h⟩ := h
    obtain ⟨rfl, rfl, hrest⟩ := hargs.closed trivial (.inl rfl) h hgreedy hgreedy'
    exact ⟨by rw [Subtype.ext hname, Subtype.ext hopening], hrest⟩
  | _ => cases hkind

/-- A binding starts with a name, a group of them with an arrow. -/
theorem head_binding_ne {bound : ParseTree .binding} {arrow : TokenOf .singleArrow}
    {rest rest' : List Token} (h : bound.tokens ++ rest = arrow.val :: rest') : False := by
  cases bound with
  | binding name equals value =>
    simp only [tokens, List.cons_append, List.cons.injEq] at h
    have hkind : TokenKind.identifier = .singleArrow := by
      rw [← name.property, ← arrow.property, h.1]
    cases hkind

theorem determined_letIn {word : TokenOf .letWord} {bound : ParseTree .binding}
    {inWord : TokenOf .inWord} {body : ParseTree (.expression .sum)} (hbound : bound.Determined)
    (hbody : body.Determined) : (letIn word bound inWord body).Determined := by
  intro other rest rest' h hgreedy hgreedy' hstops hstops'
  have hkind := headKind_eq h
  cases other with
  | chain loose => exact absurd rfl loose
  | letIn word' bound' inWord' body' =>
    simp only [tokens, List.cons_append, List.append_assoc, List.cons.injEq] at h
    obtain ⟨hword, h⟩ := h
    obtain ⟨rfl, rfl, hbehind⟩ := hbound.before trivial (by decide) h hgreedy.1 hgreedy'.1
    obtain ⟨rfl, hrest⟩ := hbody body' _ _ hbehind hgreedy.2.1 hgreedy'.2.1
      ⟨hgreedy.2.2, hstops.2⟩ ⟨hgreedy'.2.2, hstops'.2⟩
    exact ⟨by rw [Subtype.ext hword], hrest⟩
  | letGroup word' arrow' =>
    simp only [tokens, List.cons_append, List.append_assoc, List.cons.injEq] at h
    exact (head_binding_ne h.2).elim
  | _ => cases hkind

theorem determined_letGroup {word : TokenOf .letWord} {arrow : TokenOf .singleArrow}
    {opening : TokenOf .leftBrace} {bindings : ParseTree (.items .binding)}
    {closing : TokenOf .rightBrace} {inWord : TokenOf .inWord}
    {body : ParseTree (.expression .sum)} (hbindings : bindings.Determined)
    (hbody : body.Determined) :
    (letGroup word arrow opening bindings closing inWord body).Determined := by
  intro other rest rest' h hgreedy hgreedy' hstops hstops'
  have hkind := headKind_eq h
  cases other with
  | chain loose => exact absurd rfl loose
  | letIn word' bound' =>
    simp only [tokens, List.cons_append, List.append_assoc, List.cons.injEq] at h
    exact (head_binding_ne h.2.symm).elim
  | letGroup word' arrow' opening' bindings' closing' inWord' body' =>
    simp only [tokens, List.cons_append, List.append_assoc, List.cons.injEq] at h
    obtain ⟨hword, harrow, hopening, h⟩ := h
    obtain ⟨rfl, rfl, hbehind⟩ := hbindings.closed trivial (.inr rfl) h hgreedy.1 hgreedy'.1
    rw [List.cons.injEq] at hbehind
    obtain ⟨hin, hbehind⟩ := hbehind
    obtain ⟨rfl, hrest⟩ := hbody body' _ _ hbehind hgreedy.2.1 hgreedy'.2.1
      ⟨hgreedy.2.2, hstops.2⟩ ⟨hgreedy'.2.2, hstops'.2⟩
    exact ⟨by rw [Subtype.ext hword, Subtype.ext harrow, Subtype.ext hopening, Subtype.ext hin],
      hrest⟩
  | _ => cases hkind

theorem determined_ifThenElse {word : TokenOf .ifWord} {opening : TokenOf .leftParen}
    {left : ParseTree (.expression .sum)} {comparison : TokenOf .comparison}
    {right : ParseTree (.expression .sum)} {closing : TokenOf .rightParen}
    {thenWord : TokenOf .thenWord} {thenBranch : ParseTree (.expression .sum)}
    {elseWord : TokenOf .elseWord} {elseBranch : ParseTree (.expression .sum)}
    (hleft : left.Determined) (hright : right.Determined) (hthen : thenBranch.Determined)
    (helse : elseBranch.Determined) :
    (ifThenElse word opening left comparison right closing thenWord thenBranch elseWord
      elseBranch).Determined := by
  intro other rest rest' h hgreedy hgreedy' hstops hstops'
  have hkind := headKind_eq h
  cases other with
  | chain loose => exact absurd rfl loose
  | ifThenElse word' opening' left' comparison' right' closing' thenWord' thenBranch' elseWord'
      elseBranch' =>
    simp only [tokens, List.cons_append, List.append_assoc, List.cons.injEq] at h
    obtain ⟨hword, hopening, h⟩ := h
    obtain ⟨rfl, rfl, hbehindLeft⟩ := hleft.before trivial (by decide) h hgreedy.1 hgreedy'.1
    obtain ⟨rfl, rfl, hbehindRight⟩ :=
      hright.before trivial (by decide) hbehindLeft hgreedy.2.1 hgreedy'.2.1
    rw [List.cons.injEq] at hbehindRight
    obtain ⟨hthenWord, hbranches⟩ := hbehindRight
    obtain ⟨rfl, rfl, hbehindThen⟩ :=
      hthen.before trivial (by decide) hbranches hgreedy.2.2.1 hgreedy'.2.2.1
    obtain ⟨rfl, hrest⟩ := helse elseBranch' _ _ hbehindThen hgreedy.2.2.2.1 hgreedy'.2.2.2.1
      ⟨hgreedy.2.2.2.2, hstops.2⟩ ⟨hgreedy'.2.2.2.2, hstops'.2⟩
    exact ⟨by rw [Subtype.ext hword, Subtype.ext hopening, Subtype.ext hthenWord], hrest⟩
  | _ => cases hkind

/-- Parameters reach up to the first token that is none. -/
theorem parameters_inj {parameters parameters' : List (TokenOf .parameter)}
    {arrow arrow' : TokenOf .doubleArrow} {rest rest' : List Token}
    (h : parameters.map (·.val) ++ arrow.val :: rest =
      parameters'.map (·.val) ++ arrow'.val :: rest') :
    parameters = parameters' ∧ arrow = arrow' ∧ rest = rest' := by
  have hne (parameter : TokenOf .parameter) (arrow : TokenOf .doubleArrow) :
      parameter.val ≠ arrow.val := by
    intro heq
    have hkind : TokenKind.parameter = .doubleArrow := by
      rw [← parameter.property, ← arrow.property, heq]
    cases hkind
  induction parameters generalizing parameters' with
  | nil =>
    cases parameters' with
    | nil =>
      rw [List.map_nil, List.nil_append, List.nil_append, List.cons.injEq] at h
      exact ⟨rfl, Subtype.ext h.1, h.2⟩
    | cons parameter' parameters' =>
      rw [List.map_nil, List.nil_append, List.map_cons, List.cons_append, List.cons.injEq] at h
      exact absurd h.1.symm (hne _ _)
  | cons parameter parameters ih =>
    cases parameters' with
    | nil =>
      rw [List.map_nil, List.nil_append, List.map_cons, List.cons_append, List.cons.injEq] at h
      exact absurd h.1 (hne _ _)
    | cons parameter' parameters' =>
      rw [List.map_cons, List.map_cons, List.cons_append, List.cons_append, List.cons.injEq] at h
      obtain ⟨rfl, harrow, hrest⟩ := ih h.2
      exact ⟨by rw [Subtype.ext h.1], harrow, hrest⟩

theorem determined_function {word : TokenOf .functionWord} {name : TokenOf .functionName}
    {parameters : List (TokenOf .parameter)} {arrow : TokenOf .doubleArrow}
    {body : ParseTree (.expression .sum)} (hbody : body.Determined) :
    (function word name parameters arrow body).Determined := by
  intro other rest rest' h hgreedy hgreedy' hstops hstops'
  have hkind := headKind_eq h
  cases other with
  | chain loose => exact absurd rfl loose
  | function word' name' parameters' arrow' body' =>
    simp only [tokens, List.cons_append, List.append_assoc, List.cons.injEq] at h
    obtain ⟨hword, hname, h⟩ := h
    obtain ⟨rfl, rfl, hbehind⟩ := parameters_inj h
    obtain ⟨rfl, hrest⟩ := hbody body' _ _ hbehind hgreedy.1 hgreedy'.1
      ⟨hgreedy.2, hstops.2⟩ ⟨hgreedy'.2, hstops'.2⟩
    exact ⟨by rw [Subtype.ext hword, Subtype.ext hname], hrest⟩
  | _ => cases hkind

theorem determined_const {word : TokenOf .constWord} {bound : ParseTree .binding}
    (hbound : bound.Determined) : (const word bound).Determined := by
  intro other rest rest' h hgreedy hgreedy' hstops hstops'
  have hkind := headKind_eq h
  cases other with
  | chain loose => exact absurd rfl loose
  | const word' bound' =>
    simp only [tokens, List.cons_append, List.cons.injEq] at h
    obtain ⟨hword, h⟩ := h
    obtain ⟨rfl, hrest⟩ := hbound bound' _ _ h hgreedy.1 hgreedy'.1
      ⟨hgreedy.2, hstops.2⟩ ⟨hgreedy'.2, hstops'.2⟩
    exact ⟨by rw [Subtype.ext hword], hrest⟩
  | _ => cases hkind

theorem determined_print {word : TokenOf .printWord} {opening : TokenOf .leftParen}
    {inner : ParseTree (.expression .sum)} {closing : TokenOf .rightParen}
    (hinner : inner.Determined) : (print word opening inner closing).Determined := by
  intro other rest rest' h hgreedy hgreedy' _ _
  have hkind := headKind_eq h
  cases other with
  | chain loose => exact absurd rfl loose
  | print word' opening' inner' closing' =>
    simp only [tokens, List.cons_append, List.append_assoc, List.nil_append, List.cons.injEq] at h
    obtain ⟨hword, hopening, h⟩ := h
    obtain ⟨rfl, rfl, hrest⟩ := hinner.before trivial (by decide) h hgreedy hgreedy'
    exact ⟨by rw [Subtype.ext hword, Subtype.ext hopening], hrest⟩
  | _ => cases hkind

theorem determined_binding {name : TokenOf .identifier} {equals : OperatorOf ["="]}
    {value : ParseTree (.expression .sum)} (hvalue : value.Determined) :
    (binding name equals value).Determined := by
  intro other rest rest' h hgreedy hgreedy' hstops hstops'
  cases other with
  | binding name' equals' value' =>
    simp only [tokens, List.cons_append, List.cons.injEq] at h
    obtain ⟨hname, hequals, h⟩ := h
    obtain ⟨rfl, hrest⟩ := hvalue value' _ _ h hgreedy hgreedy' hstops hstops'
    exact ⟨by rw [Subtype.ext hname, Subtype.ext hequals], hrest⟩

/-- What stands behind an item of a row stops it. -/
theorem stopsBefore_moreItems {item : Phrase} (hitem : item.IsItem)
    (more : ParseTree (.moreItems item)) {rest : List Token}
    (h : ∃ closing behind, rest = closing :: behind ∧ closing.kind.ClosesItems) :
    item.StopsBefore (more.tokens ++ rest) := by
  obtain ⟨closing, behind, rfl, hclosing⟩ := h
  exact hitem.stopsBefore (more.endsBefore_moreItems hclosing item)
    (more.noParen_moreItems hclosing)

/-- The token that closes a row is not the first of an item. -/
theorem item_ne_closing {item : Phrase} (hitem : item.IsItem) {first : ParseTree item}
    {behind rest : List Token} (h : first.tokens ++ behind = rest)
    (hclosing : ∃ closing behind, rest = closing :: behind ∧ closing.kind.ClosesItems) : False := by
  obtain ⟨token, more, htokens, htoken⟩ := head_item hitem first
  obtain ⟨closing, behind', rfl, hclosing⟩ := hclosing
  rw [htokens, List.cons_append, List.cons.injEq] at h
  rw [h.1] at htoken
  exact htoken hclosing

/-- The token that closes a row is no comma. -/
theorem comma_ne_closing {comma : TokenOf .comma} {behind : List Token}
    (h : ∃ closing rest, comma.val :: behind = closing :: rest ∧ closing.kind.ClosesItems) :
    False := by
  obtain ⟨closing, rest, heq, hclosing⟩ := h
  rw [List.cons.injEq] at heq
  rw [← heq.1] at hclosing
  exact hclosing.ne_comma comma.property

/-- An item and the further ones behind it. -/
theorem Determined.moreItems {item : Phrase} {first first' : ParseTree item}
    {more more' : ParseTree (.moreItems item)} (hfirst : first.Determined)
    (hmore : more.Determined) {rest rest' : List Token}
    (h : first.tokens ++ (more.tokens ++ rest) = first'.tokens ++ (more'.tokens ++ rest'))
    (hgreedy : first.Greedy (more.tokens ++ rest) ∧ more.Greedy rest)
    (hgreedy' : first'.Greedy (more'.tokens ++ rest') ∧ more'.Greedy rest')
    (hstops : (Phrase.moreItems item).StopsBefore rest)
    (hstops' : (Phrase.moreItems item).StopsBefore rest') :
    first = first' ∧ more = more' ∧ rest = rest' := by
  obtain ⟨rfl, hbehind⟩ := hfirst first' _ _ h hgreedy.1 hgreedy'.1
    (more.stopsBefore_moreItems hstops.1 hstops.2)
    (more'.stopsBefore_moreItems hstops.1 hstops'.2)
  exact ⟨rfl, hmore more' _ _ hbehind hgreedy.2 hgreedy'.2 hstops hstops'⟩

theorem determined_noItems {item : Phrase} : (noItems : ParseTree (.items item)).Determined := by
  intro other rest rest' h hgreedy hgreedy' hstops hstops'
  cases other with
  | noItems => exact ⟨rfl, h⟩
  | items first more =>
    rw [tokens, tokens, List.nil_append, List.append_assoc] at h
    exact (item_ne_closing hstops.1 h.symm hstops.2).elim

theorem determined_items {item : Phrase} {first : ParseTree item}
    {more : ParseTree (.moreItems item)} (hfirst : first.Determined) (hmore : more.Determined) :
    (items first more).Determined := by
  intro other rest rest' h hgreedy hgreedy' hstops hstops'
  cases other with
  | noItems =>
    rw [tokens, tokens, List.nil_append, List.append_assoc] at h
    exact (item_ne_closing hstops.1 h hstops'.2).elim
  | items first' more' =>
    rw [tokens, tokens, List.append_assoc, List.append_assoc] at h
    obtain ⟨rfl, rfl, hrest⟩ := hfirst.moreItems hmore h hgreedy hgreedy' hstops hstops'
    exact ⟨rfl, hrest⟩

theorem determined_noMoreItems {item : Phrase} :
    (noMoreItems : ParseTree (.moreItems item)).Determined := by
  intro other rest rest' h hgreedy hgreedy' hstops hstops'
  cases other with
  | noMoreItems => exact ⟨rfl, h⟩
  | moreItems comma first more =>
    rw [tokens, tokens, List.nil_append, List.cons_append] at h
    rw [h] at hstops
    exact (comma_ne_closing hstops.2).elim

theorem determined_moreItems {item : Phrase} {comma : TokenOf .comma} {first : ParseTree item}
    {more : ParseTree (.moreItems item)} (hfirst : first.Determined) (hmore : more.Determined) :
    (moreItems comma first more).Determined := by
  intro other rest rest' h hgreedy hgreedy' hstops hstops'
  cases other with
  | noMoreItems =>
    rw [tokens, tokens, List.nil_append, List.cons_append] at h
    rw [← h] at hstops'
    exact (comma_ne_closing hstops'.2).elim
  | moreItems comma' first' more' =>
    simp only [tokens, List.cons_append, List.append_assoc, List.cons.injEq] at h
    obtain ⟨hcomma, h⟩ := h
    obtain ⟨rfl, rfl, hrest⟩ := hfirst.moreItems hmore h hgreedy hgreedy' hstops hstops'
    exact ⟨by rw [Subtype.ext hcomma], hrest⟩

/-- Greedy trees are unambiguous. -/
theorem determined {phrase : Phrase} (tree : ParseTree phrase) : tree.Determined := by
  induction tree with
  | chain loose first more hfirst hmore => exact determined_chain hfirst hmore
  | noOperation => exact determined_noOperation
  | operation sign right more hright hmore => exact determined_operation hright hmore
  | paren opening inner closing hinner => exact determined_paren hinner
  | negation minus right hright => exact determined_negation hright
  | number token => exact determined_number token
  | string token => exact determined_string token
  | access name => exact determined_access name
  | call name opening args closing hargs => exact determined_call hargs
  | letIn word bound inWord body hbound hbody => exact determined_letIn hbound hbody
  | letGroup word arrow opening bindings closing inWord body hbindings hbody =>
    exact determined_letGroup hbindings hbody
  | ifThenElse word opening left comparison right closing thenWord thenBranch elseWord elseBranch
      hleft hright hthen helse => exact determined_ifThenElse hleft hright hthen helse
  | function word name parameters arrow body hbody => exact determined_function hbody
  | const word bound hbound => exact determined_const hbound
  | print word opening inner closing hinner => exact determined_print hinner
  | binding name equals value hvalue => exact determined_binding hvalue
  | noItems => exact determined_noItems
  | items first more hfirst hmore => exact determined_items hfirst hmore
  | noMoreItems => exact determined_noMoreItems
  | moreItems comma first more hfirst hmore => exact determined_moreItems hfirst hmore

end ParseTree

end Reckoner
