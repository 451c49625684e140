import Mathlib.Data.List.Chain
import Reckoner.Proofs.Expr.Replacing
import Reckoner.Proofs.Grammar.StatementTree
import Reckoner.Proofs.Token.Folding

/-!
Derivations with an operand in the place of a number. The rest of the tree stays as it is, but may
move to other positions. What the tree stands for and what it declares changes at the number alone,
and the new tree is in order and greedy where the old one is.
-/

set_option autoImplicit false
set_option relaxedAutoImplicit false

namespace Reckoner

/-- A number that an operand takes the place of, and where all other tokens move to. -/
structure Substitution where
  token : TokenOf .number
  operand : ParseTree (.expression .operand)
  move : Pos → Pos

/-! ### Tokens -/

/-- The token of a kind at another position. -/
def TokenOf.moved {kind : TokenKind} (move : Pos → Pos) (token : TokenOf kind) : TokenOf kind :=
  ⟨token.val.moved move, token.property⟩

/-- The operator at another position. -/
def OperatorOf.moved {texts : List String} (move : Pos → Pos) (sign : OperatorOf texts) :
    OperatorOf texts :=
  ⟨sign.val.moved move, sign.property⟩

section

variable {kind : TokenKind} {texts : List String} (move : Pos → Pos)

@[simp]
theorem TokenOf.text_moved (token : TokenOf kind) : (token.moved move).val.text = token.val.text :=
  rfl

@[simp]
theorem TokenOf.pos_moved (token : TokenOf kind) :
    (token.moved move).val.pos = move token.val.pos :=
  rfl

@[simp]
theorem OperatorOf.val_moved (sign : OperatorOf texts) :
    (sign.moved move).val = { sign.val with pos := move sign.val.pos } :=
  rfl

end

namespace Substitution

variable (change : Substitution)

/-- What becomes of a token. -/
def expand (token : Token) : List Token :=
  if token = change.token.val then change.operand.tokens else [token.moved change.move]

/-- Whether the number is all that stands at its position. -/
def Owns (tokens : List Token) : Prop :=
  ∀ token ∈ tokens, token.pos = change.token.val.pos → token = change.token.val

/-- What becomes of the expressions that are read. -/
def replacement (builtins : NameMap Builtin) : Replacement where
  place := change.token.val.pos
  new := change.operand.value builtins
  move := change.move

variable {change}

@[simp]
theorem move_replacement (builtins : NameMap Builtin) :
    (change.replacement builtins).move = change.move :=
  rfl

theorem owns_append {tokens more : List Token} :
    change.Owns (tokens ++ more) ↔ change.Owns tokens ∧ change.Owns more :=
  List.forall_mem_append

theorem owns_cons {token : Token} {tokens : List Token} : change.Owns (token :: tokens) ↔
    (token.pos = change.token.val.pos → token = change.token.val) ∧ change.Owns tokens :=
  List.forall_mem_cons

theorem expand_of_ne {token : Token} (h : token ≠ change.token.val) :
    change.expand token = [token.moved change.move] :=
  if_neg h

end Substitution

/-! ### Trees -/

namespace ParseTree

/-- The tree with the operand in the place of the number. -/
def substitute (change : Substitution) : {phrase : Phrase} → ParseTree phrase → ParseTree phrase
  | _, chain loose first more => chain loose (first.substitute change) (more.substitute change)
  | _, noOperation => noOperation
  | _, operation sign right more =>
    operation (sign.moved change.move) (right.substitute change) (more.substitute change)
  | _, paren opening inner closing =>
    paren (opening.moved change.move) (inner.substitute change) (closing.moved change.move)
  | _, negation minus right => negation (minus.moved change.move) (right.substitute change)
  | _, number token =>
    if token.val = change.token.val then change.operand else number (token.moved change.move)
  | _, string token => string (token.moved change.move)
  | _, access name => access (name.moved change.move)
  | _, call name opening args closing =>
    call (name.moved change.move) (opening.moved change.move) (args.substitute change)
      (closing.moved change.move)
  | _, letIn word bound inWord body =>
    letIn (word.moved change.move) (bound.substitute change) (inWord.moved change.move)
      (body.substitute change)
  | _, letGroup word arrow opening bindings closing inWord body =>
    letGroup (word.moved change.move) (arrow.moved change.move) (opening.moved change.move)
      (bindings.substitute change) (closing.moved change.move) (inWord.moved change.move)
      (body.substitute change)
  | _, ifThenElse word opening left comparison right closing thenWord thenBranch elseWord
      elseBranch =>
    ifThenElse (word.moved change.move) (opening.moved change.move) (left.substitute change)
      (comparison.moved change.move) (right.substitute change) (closing.moved change.move)
      (thenWord.moved change.move) (thenBranch.substitute change) (elseWord.moved change.move)
      (elseBranch.substitute change)
  | _, function word name parameters arrow body =>
    function (word.moved change.move) (name.moved change.move)
      (parameters.map (·.moved change.move)) (arrow.moved change.move) (body.substitute change)
  | _, const word bound => const (word.moved change.move) (bound.substitute change)
  | _, print word opening inner closing =>
    print (word.moved change.move) (opening.moved change.move) (inner.substitute change)
      (closing.moved change.move)
  | _, binding name equals value =>
    binding (name.moved change.move) (equals.moved change.move) (value.substitute change)
  | _, noItems => noItems
  | _, items first more => items (first.substitute change) (more.substitute change)
  | _, noMoreItems => noMoreItems
  | _, moreItems comma first more =>
    moreItems (comma.moved change.move) (first.substitute change) (more.substitute change)

variable {change : Substitution}

theorem expand_val {kind : TokenKind} (hkind : kind ≠ .number) (token : TokenOf kind) :
    change.expand token.val = [(token.moved change.move).val] := by
  refine Substitution.expand_of_ne fun htoken ↦ hkind ?_
  rw [← token.property, htoken, change.token.property]

theorem expand_operator {texts : List String} (sign : OperatorOf texts) :
    change.expand sign.val = [(sign.moved change.move).val] :=
  expand_val (by decide) ⟨sign.val, sign.property.1⟩

theorem expand_parameters (parameters : List (TokenOf .parameter)) :
    (parameters.map (·.val)).flatMap change.expand =
      (parameters.map (·.moved change.move)).map (·.val) := by
  induction parameters with
  | nil => rfl
  | cons parameter rest ih =>
    rw [List.map_cons, List.flatMap_cons, ih, expand_val (by decide)]
    rfl

/-- The tokens of the new tree. -/
theorem tokens_substitute {phrase : Phrase} (tree : ParseTree phrase) :
    (tree.substitute change).tokens = tree.tokens.flatMap change.expand := by
  induction tree with
  | number token =>
    rw [tokens, List.flatMap_singleton, substitute, Substitution.expand]
    split <;> rfl
  | operation sign right more hright hmore =>
    simp [substitute, tokens, expand_operator, hright, hmore]
  | negation minus right hright => simp [substitute, tokens, expand_operator, hright]
  | binding name equals value hvalue =>
    simp (disch := decide) [substitute, tokens, expand_val, expand_operator, hvalue]
  | function word name parameters arrow body hbody =>
    simp (disch := decide) only [substitute, tokens, hbody, expand_parameters, expand_val,
      List.flatMap_cons, List.flatMap_append, List.singleton_append]
  | _ => simp (disch := decide) [substitute, tokens, expand_val, *]

/-- A number in the place of itself changes nothing. -/
theorem substitute_self (token : TokenOf .number) {phrase : Phrase} (tree : ParseTree phrase) :
    tree.substitute ⟨token, number token, id⟩ = tree := by
  have hof {kind : TokenKind} (token : TokenOf kind) : token.moved id = token := rfl
  have hsign {texts : List String} (sign : OperatorOf texts) : sign.moved id = sign := rfl
  induction tree with
  | number other =>
    rw [substitute]
    split
    · next hother => rw [Subtype.ext hother]
    · rfl
  | _ => simp [substitute, *]

end ParseTree

/-! ### What trees stand for -/

/-- What a phrase stands for after a replacement. -/
def Phrase.replace (change : Replacement) : (phrase : Phrase) → phrase.Value → phrase.Value
  | expression _, expr => expr.replace change
  | operations _, row => row.map fun operation ↦
    ({ operation.1 with pos := change.move operation.1.pos }, operation.2.replace change)
  | binding, bound => (bound.1, bound.2.replace change)
  | items item, values => values.map (item.replace change)
  | moreItems item, values => values.map (item.replace change)

theorem Expr.replace_operate {change : Replacement} (level : Level) (left : Expr)
    (row : List (Token × Expr)) : (left.operate row).replace change =
      (left.replace change).operate ((Phrase.operations level).replace change row) := by
  induction row generalizing left with
  | nil => rfl
  | cons operation row ih => exact ih _

namespace ParseTree

variable {change : Substitution} {builtins : NameMap Builtin}

/-- The new tree stands for the same, but for the literal that is replaced. -/
theorem value_substitute {phrase : Phrase} (tree : ParseTree phrase)
    (h : change.Owns tree.tokens) : (tree.substitute change).value builtins =
      phrase.replace (change.replacement builtins) (tree.value builtins) := by
  have hne {token : Token} (hkind : token.kind ≠ .number)
      (hown : token.pos = change.token.val.pos → token = change.token.val) :
      token.pos ≠ change.token.val.pos := by
    intro hpos
    rw [hown hpos] at hkind
    exact hkind change.token.property
  induction tree with
  | chain loose first more hfirst hmore =>
    obtain ⟨hfirstOwns, hmoreOwns⟩ := Substitution.owns_append.mp h
    rw [substitute, value, value, hfirst hfirstOwns, hmore hmoreOwns]
    exact (Expr.replace_operate _ _ _).symm
  | number token =>
    have hown := (Substitution.owns_cons.mp h).1
    by_cases htoken : token.val = change.token.val
    · rw [substitute, if_pos htoken]
      exact (if_pos (congrArg Token.pos htoken)).symm
    · rw [substitute, if_neg htoken]
      exact (if_neg fun hpos ↦ htoken (hown hpos)).symm
  | string token =>
    exact (if_neg (hne (by simp [token.property]) (Substitution.owns_cons.mp h).1)).symm
  | negation minus right hright =>
    obtain ⟨hown, hrest⟩ := Substitution.owns_cons.mp h
    rw [substitute, value, hright hrest]
    simp [value, Phrase.replace, Expr.replace, Substitution.replacement,
      hne (by simp [minus.property.1]) hown]
  | call name opening args closing hargs =>
    simp only [tokens, Substitution.owns_append, Substitution.owns_cons] at h
    rw [substitute, value, value, hargs h.2.2.1, TokenOf.text_moved]
    split <;> simp [Phrase.replace, Expr.replace, replaceArgs_eq_map]
  | _ =>
    simp only [tokens, Substitution.owns_append, Substitution.owns_cons] at h
    simp [substitute, value, Phrase.replace, Expr.replace, replaceBindings_eq_map, *]

/-- The new tree declares the same, but for the literal that is replaced. -/
theorem declared_substitute (hdeclared : change.operand.declared builtins = []) {phrase : Phrase}
    (tree : ParseTree phrase) (h : change.Owns tree.tokens) :
    (tree.substitute change).declared builtins =
      (tree.declared builtins).map (·.replace (change.replacement builtins)) := by
  induction tree with
  | number token =>
    rw [substitute]
    split
    · exact hdeclared
    · rfl
  | _ =>
    simp only [tokens, Substitution.owns_append, Substitution.owns_cons] at h
    simp [substitute, declared, value_substitute, Declaration.replace, Phrase.replace, *]

end ParseTree

/-! ### Order and greed -/

/-- Whether the number is in order, and the operand in the place of it declares nothing and is in
order and greedy wherever it stands. -/
structure Substitution.Plain (change : Substitution) : Prop where
  isNumber : (Number.read? change.token.val.text).isSome = true
  declared : ∀ builtins, change.operand.declared builtins = []
  valid : ∀ scope before, change.operand.Valid scope before
  greedy : ∀ rest, change.operand.Greedy rest

namespace ParseTree

variable {change : Substitution}

/-- The new tree is in order where the old one is. -/
theorem valid_substitute (hplain : change.Plain) {phrase : Phrase} (tree : ParseTree phrase)
    (h : change.Owns tree.tokens) (scope : Scope) (before : List Declaration) :
    (tree.substitute change).Valid scope
        (before.map (·.replace (change.replacement scope.declarations.builtins))) ↔
      tree.Valid scope before := by
  induction tree generalizing scope before with
  | number token =>
    rw [substitute]
    split
    · next htoken =>
      rw [Valid, htoken]
      exact iff_of_true (hplain.valid _ _) hplain.isNumber
    · exact Iff.rfl
  | function word name parameters arrow body hbody =>
    simp only [tokens, Substitution.owns_append, Substitution.owns_cons] at h
    simp [substitute, Valid, Declaration.declaresFunction_replace, *]
  | _ =>
    simp only [tokens, Substitution.owns_append, Substitution.owns_cons] at h
    simp only [substitute, Valid, TokenOf.text_moved, declared_substitute (hplain.declared _),
      ← List.map_append, *]

/-- The new tree is at most as much deeper as the operand is deeper than the number. -/
theorem nesting_substitute {phrase : Phrase} (tree : ParseTree phrase) :
    tree.nesting ≤ (tree.substitute change).nesting ∧
      (tree.substitute change).nesting + 1 ≤ tree.nesting + change.operand.nesting := by
  have hpos := change.operand.nesting_pos
  induction tree with
  | number token =>
    rw [substitute]
    split <;> simp only [nesting] <;> omega
  | _ =>
    simp only [substitute, nesting]
    omega

end ParseTree

/-! ### Greed -/

/-- Whether the tokens end with one that ends an operand. -/
def EndsOperand (tokens : List Token) : Prop :=
  ∃ front last, tokens = front ++ [last] ∧ last.kind.endsOperand = true

/-- Whether the tokens end as those of the phrase do, where it ends with an expression. -/
def Phrase.Closes : Phrase → List Token → Prop
  | expression _, tokens => EndsOperand tokens
  | operations _, tokens => tokens = [] ∨ EndsOperand tokens
  | binding, tokens => EndsOperand tokens
  | items _, _ => True
  | moreItems _, _ => True

theorem EndsOperand.append {tokens : List Token} (h : EndsOperand tokens) (before : List Token) :
    EndsOperand (before ++ tokens) := by
  obtain ⟨front, last, rfl, hlast⟩ := h
  exact ⟨before ++ front, last, (List.append_assoc _ _ _).symm, hlast⟩

theorem EndsOperand.cons {tokens : List Token} (h : EndsOperand tokens) (token : Token) :
    EndsOperand (token :: tokens) :=
  h.append [token]

theorem endsOperand_singleton {kind : TokenKind} (token : TokenOf kind)
    (h : kind.endsOperand = true) : EndsOperand [token.val] :=
  ⟨[], token.val, rfl, (congrArg _ token.property).trans h⟩

namespace ParseTree

/-- An expression ends with a token that ends an operand. -/
theorem closes {phrase : Phrase} (tree : ParseTree phrase) : phrase.Closes tree.tokens := by
  induction tree with
  | chain loose first more hfirst hmore =>
    rcases hmore with hmore | hmore
    · rw [tokens, hmore, List.append_nil]
      exact hfirst
    · exact hmore.append _
  | noOperation => exact .inl rfl
  | operation sign right more hright hmore =>
    refine .inr (EndsOperand.cons ?_ _)
    rcases hmore with hmore | hmore
    · rw [hmore, List.append_nil]
      exact hright
    · exact hmore.append _
  | paren opening inner closing hinner =>
    exact ((endsOperand_singleton closing rfl).append _).cons _
  | negation minus right hright => exact hright.cons _
  | number token => exact endsOperand_singleton token rfl
  | string token => exact endsOperand_singleton token rfl
  | access name => exact endsOperand_singleton name rfl
  | call name opening args closing hargs =>
    exact (((endsOperand_singleton closing rfl).append _).cons _).cons _
  | letIn word bound inWord body hbound hbody => exact ((hbody.cons _).append _).cons _
  | letGroup word arrow opening bindings closing inWord body hbindings hbody =>
    exact (((((hbody.cons _).cons _).append _).cons _).cons _).cons _
  | ifThenElse word opening left comparison right closing thenWord thenBranch elseWord elseBranch
      hleft hright hthen helse =>
    have hbranches := (((helse.cons elseWord.val).append thenBranch.tokens).cons thenWord.val).cons
      closing.val
    exact ((((hbranches.append _).cons _).append _).cons _).cons _
  | function word name parameters arrow body hbody =>
    exact (((hbody.cons _).append _).cons _).cons _
  | const word bound hbound => exact hbound.cons _
  | print word opening inner closing hinner =>
    exact (((endsOperand_singleton closing rfl).append _).cons _).cons _
  | binding name equals value hvalue => exact (hvalue.cons _).cons _
  | _ => exact trivial

end ParseTree

namespace Substitution

variable {change : Substitution}

/-- Whether no operand ends right before the number. -/
def Leads (change : Substitution) (tokens : List Token) : Prop :=
  tokens.IsChain fun first second ↦ second = change.token.val → first.kind.endsOperand = false

theorem Leads.within {tokens part : List Token} (h : change.Leads tokens)
    (hpart : part <:+: tokens) : change.Leads part :=
  List.IsChain.infix h hpart

theorem Leads.head {tokens rest : List Token} (h : change.Leads (tokens ++ rest))
    (hends : EndsOperand tokens) : ∀ token ∈ rest.head?, token ≠ change.token.val := by
  obtain ⟨front, last, rfl, hlast⟩ := hends
  intro token htoken hnumber
  have hnot := (List.isChain_append.mp h).2.2 last (by simp) token htoken hnumber
  rw [hlast] at hnot
  cases hnot

theorem endsBefore_expand {rest : List Token}
    (h : ∀ token ∈ rest.head?, token ≠ change.token.val) (level : Level) :
    level.EndsBefore (rest.flatMap change.expand) ↔ level.EndsBefore rest := by
  cases rest with
  | nil => exact Iff.rfl
  | cons token rest =>
    rw [List.flatMap_cons, expand_of_ne (h token rfl)]
    simp [Level.EndsBefore, Token.moved]

end Substitution

namespace ParseTree

variable {change : Substitution}

/-- Whether the new tree is greedy where the tree is. -/
def KeepsGreed (change : Substitution) {phrase : Phrase} (tree : ParseTree phrase) : Prop :=
  ∀ rest, change.Leads (tree.tokens ++ rest) →
    ((tree.substitute change).Greedy (rest.flatMap change.expand) ↔ tree.Greedy rest)

/-- A tree in front of another one. -/
theorem KeepsGreed.followed {phrase other : Phrase} {first : ParseTree phrase}
    {more : ParseTree other} (hfirst : first.KeepsGreed change) (hmore : more.KeepsGreed change)
    {rest : List Token} (h : change.Leads (first.tokens ++ (more.tokens ++ rest))) :
    (first.substitute change).Greedy
          ((more.substitute change).tokens ++ rest.flatMap change.expand) ∧
        (more.substitute change).Greedy (rest.flatMap change.expand) ↔
      first.Greedy (more.tokens ++ rest) ∧ more.Greedy rest := by
  have hfirst := hfirst _ h
  rw [List.flatMap_append, ← tokens_substitute] at hfirst
  exact and_congr hfirst (hmore rest (h.within (List.suffix_append _ _).isInfix))

/-- A tree in front of a token. -/
theorem KeepsGreed.before {phrase : Phrase} {tree : ParseTree phrase}
    (htree : tree.KeepsGreed change) {kind : TokenKind} (hkind : kind ≠ .number)
    {token : TokenOf kind} {rest : List Token}
    (h : change.Leads (tree.tokens ++ token.val :: rest)) :
    (tree.substitute change).Greedy
        ((token.moved change.move).val :: rest.flatMap change.expand) ↔
      tree.Greedy (token.val :: rest) := by
  have htree := htree _ h
  rw [List.flatMap_cons, expand_val hkind] at htree
  exact htree

/-- The new tree is greedy where the old one is. -/
theorem greedy_substitute (hplain : change.Plain) {phrase : Phrase} (tree : ParseTree phrase) :
    tree.KeepsGreed change := by
  have hends {level : Level} (tree : ParseTree (.expression level)) {rest : List Token}
      (h : change.Leads (tree.tokens ++ rest)) :=
    Substitution.endsBefore_expand (h.head tree.closes) .sum
  induction tree with
  | chain loose first more hfirst hmore =>
    intro rest h
    rw [tokens, List.append_assoc] at h
    exact hfirst.followed hmore h
  | operation sign right more hright hmore =>
    intro rest h
    exact hright.followed hmore (h.within ⟨[sign.val], [], by simp [tokens]⟩)
  | paren opening inner closing hinner =>
    intro rest h
    exact hinner.before (by decide) (h.within ⟨[opening.val], [], by simp [tokens]⟩)
  | negation minus right hright =>
    intro rest h
    exact hright rest (h.within ⟨[minus.val], [], by simp [tokens]⟩)
  | number token =>
    intro rest h
    rw [substitute]
    split
    · exact iff_of_true (hplain.greedy _) trivial
    · exact Iff.rfl
  | call name opening args closing hargs =>
    intro rest h
    exact hargs.before (by decide) (h.within ⟨[name.val, opening.val], [], by simp [tokens]⟩)
  | letIn word bound inWord body hbound hbody =>
    intro rest h
    have hbound := hbound.before (by decide)
      (h.within ⟨[word.val], [], by simp [tokens]⟩ :
        change.Leads (bound.tokens ++ inWord.val :: (body.tokens ++ rest)))
    have hbody := hbody rest
      (h.within ⟨word.val :: (bound.tokens ++ [inWord.val]), [], by simp [tokens]⟩)
    rw [List.flatMap_append, ← tokens_substitute] at hbound
    exact and_congr hbound (and_congr hbody (hends _ h))
  | letGroup word arrow opening bindings closing inWord body hbindings hbody =>
    intro rest h
    have hbindings := hbindings.before (by decide)
      (h.within ⟨[word.val, arrow.val, opening.val], [], by simp [tokens]⟩ :
        change.Leads (bindings.tokens ++ closing.val :: inWord.val :: (body.tokens ++ rest)))
    have hbody := hbody rest (h.within ⟨word.val :: arrow.val :: opening.val ::
      (bindings.tokens ++ [closing.val, inWord.val]), [], by simp [tokens]⟩)
    rw [List.flatMap_cons, List.flatMap_append, expand_val (by decide), ← tokens_substitute]
      at hbindings
    exact and_congr hbindings (and_congr hbody (hends _ h))
  | ifThenElse word opening left comparison right closing thenWord thenBranch elseWord elseBranch
      hleft hright hthen helse =>
    intro rest h
    have helse' := helse rest (h.within ⟨word.val :: opening.val :: (left.tokens ++
      comparison.val :: (right.tokens ++ closing.val :: thenWord.val ::
        (thenBranch.tokens ++ [elseWord.val]))), [], by simp [tokens]⟩)
    have hthen := hthen (elseWord.val :: (elseBranch.tokens ++ rest)) (h.within
      ⟨word.val :: opening.val :: (left.tokens ++ comparison.val :: (right.tokens ++
        [closing.val, thenWord.val])), [], by simp [tokens]⟩)
    have hright := hright (closing.val :: thenWord.val :: (thenBranch.tokens ++
      elseWord.val :: (elseBranch.tokens ++ rest))) (h.within
        ⟨word.val :: opening.val :: (left.tokens ++ [comparison.val]), [], by simp [tokens]⟩)
    have hleft := hleft (comparison.val :: (right.tokens ++ closing.val :: thenWord.val ::
      (thenBranch.tokens ++ elseWord.val :: (elseBranch.tokens ++ rest))))
        (h.within ⟨[word.val, opening.val], [], by simp [tokens]⟩)
    simp (disch := decide) only [List.flatMap_cons, List.flatMap_append, expand_val,
      List.singleton_append, ← tokens_substitute] at hleft hright hthen
    exact and_congr hleft (and_congr hright (and_congr hthen (and_congr helse' (hends _ h))))
  | function word name parameters arrow body hbody =>
    intro rest h
    have hbody := hbody rest (h.within ⟨word.val :: name.val :: (parameters.map (·.val) ++
      [arrow.val]), [], by simp [tokens]⟩)
    exact and_congr hbody (hends _ h)
  | const word bound hbound =>
    intro rest h
    exact and_congr (hbound rest (h.within ⟨[word.val], [], by simp [tokens]⟩)) (hends _ h)
  | print word opening inner closing hinner =>
    intro rest h
    exact hinner.before (by decide) (h.within ⟨[word.val, opening.val], [], by simp [tokens]⟩)
  | binding name equals value hvalue =>
    intro rest h
    exact hvalue rest (h.within ⟨[name.val, equals.val], [], by simp [tokens]⟩)
  | items first more hfirst hmore =>
    intro rest h
    rw [tokens, List.append_assoc] at h
    exact hfirst.followed hmore h
  | moreItems comma first more hfirst hmore =>
    intro rest h
    exact hfirst.followed hmore (h.within ⟨[comma.val], [], by simp [tokens]⟩)
  | _ => exact fun _ _ ↦ Iff.rfl

end ParseTree

/-! ### Statements -/

namespace StatementTree

variable {change : Substitution} {declarations : Declarations} {tokens : List Token}

/-- The statement with the operand in the place of the number. -/
def substitute (change : Substitution) (tree : StatementTree) : StatementTree :=
  ⟨tree.expr.substitute change, tree.semicolon.map (·.moved change.move)⟩

theorem substitute_self (token : TokenOf .number) (tree : StatementTree) :
    tree.substitute ⟨token, .number token, id⟩ = tree := by
  obtain ⟨expr, semicolon⟩ := tree
  rw [substitute, ParseTree.substitute_self]
  cases semicolon <;> rfl

theorem statement_substitute {builtins : NameMap Builtin}
    (hdeclared : change.operand.declared builtins = []) (tree : StatementTree)
    (howns : change.Owns tree.expr.tokens) :
    (tree.substitute change).statement builtins =
      (tree.statement builtins).replace (change.replacement builtins) := by
  rw [statement, substitute, ParseTree.value_substitute tree.expr howns,
    ParseTree.declared_substitute hdeclared tree.expr howns]
  rfl

theorem ending_substitute (tree : StatementTree) :
    (tree.substitute change).ending = tree.ending.flatMap change.expand := by
  obtain ⟨expr, semicolon⟩ := tree
  cases semicolon with
  | none => rfl
  | some semicolon =>
    refine Eq.symm ((List.flatMap_singleton _ _).trans ?_)
    exact ParseTree.expand_val (by decide) semicolon

/-- The end mark stays where it is. -/
theorem takeWhile_expand (tokens : List Token) :
    (tokens.flatMap change.expand).takeWhile (·.kind ≠ .eof) =
      (tokens.takeWhile (·.kind ≠ .eof)).flatMap change.expand := by
  have hkept (token : Token) (h : token.kind ≠ .eof) :
      ∀ other ∈ change.expand token, decide (other.kind ≠ TokenKind.eof) = true := by
    intro other hother
    rw [Substitution.expand] at hother
    split at hother
    · exact decide_eq_true (change.operand.kind_ne_eof hother)
    · obtain rfl := List.mem_singleton.mp hother
      exact decide_eq_true h
  induction tokens with
  | nil => rfl
  | cons token tokens ih =>
    by_cases heof : token.kind = .eof
    · have hne : token ≠ change.token.val := by
        rintro rfl
        cases change.token.property.symm.trans heof
      rw [List.flatMap_cons, Substitution.expand_of_ne hne,
        List.takeWhile_cons_of_neg (by simp [heof])]
      exact List.takeWhile_cons_of_neg (by simp [Token.moved, heof])
    · rw [List.flatMap_cons, List.takeWhile_append_of_pos (hkept token heof), ih,
        List.takeWhile_cons_of_pos (by simp [heof]), List.flatMap_cons]

/-- Whether the tree is a derivation does not change. -/
theorem derives_substitute (hplain : change.Plain) (howns : change.Owns tokens)
    (hleads : change.Leads tokens) {tree : StatementTree}
    (htokens : tokens.takeWhile (·.kind ≠ .eof) = tree.expr.tokens ++ tree.ending) :
    (tree.substitute change).Derives declarations (tokens.flatMap change.expand) ↔
      tree.Derives declarations tokens := by
  have hfront : change.Leads (tree.expr.tokens ++ tree.ending) := by
    rw [← htokens]
    exact hleads.within (List.takeWhile_prefix _).isInfix
  have hexpr : change.Owns tree.expr.tokens := fun token htoken ↦
    howns token ((List.takeWhile_sublist _).subset
      (htokens ▸ List.mem_append_left tree.ending htoken))
  have hgreedy := tree.expr.greedy_substitute hplain _ hfront
  rw [← ending_substitute] at hgreedy
  have hvalid : (tree.expr.substitute change).Valid ⟨declarations, none⟩ [] ↔
      tree.expr.Valid ⟨declarations, none⟩ [] := tree.expr.valid_substitute hplain hexpr _ []
  constructor
  · exact fun h ↦ ⟨htokens, hgreedy.mp h.greedy, hvalid.mp h.valid⟩
  · refine fun h ↦ ⟨?_, hgreedy.mpr h.greedy, hvalid.mpr h.valid⟩
    rw [takeWhile_expand, htokens, List.flatMap_append, ending_substitute,
      ← ParseTree.tokens_substitute]
    rfl

end StatementTree

end Reckoner
