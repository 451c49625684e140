import Reckoner.Statement

/-!
The grammar of statements, as trees. A tree belongs to a phrase of the grammar and has a
constructor for each way to form that phrase; its tokens, read from left to right, are what
the phrase derives. From a tree follow the expression it stands for, the declarations inside
it in the order of their completion, and what the names in it must satisfy.

The trees alone are ambiguous, because a form such as a `let` may stand at the end of an
operand. A tree is greedy if no such form is followed by an operator it could have taken in.
-/

set_option autoImplicit false
set_option relaxedAutoImplicit false

namespace Reckoner

namespace Level

/-- The next tighter level. -/
def tighter : Level → Level
  | sum => product
  | product => power
  | power => operand
  | operand => operand

/-- The operators that join expressions of the level, as they are written. -/
def signs : Level → List String
  | sum => ["+", "-"]
  | product => ["*", "/"]
  | power => ["^"]
  | operand => []

/-- The operators of the level and of all tighter ones. -/
def reach : Level → List String
  | sum => ["+", "-", "*", "/", "^"]
  | product => ["*", "/", "^"]
  | power => ["^"]
  | operand => []

/-- What carries on an expression is an operator of its level or of a tighter one. -/
theorem mem_reach (level : Level) (text : String) :
    text ∈ level.reach ↔ text ∈ level.signs ∨ text ∈ level.tighter.reach := by
  cases level <;> simp [reach, signs, tighter, or_assoc]

/-- The operators of a level are the ones that are written as its signs. -/
theorem joins_ofText (level : Level) (text : String) :
    level.joins (.ofText text) = true ↔ text ∈ level.signs := by
  unfold Operator.ofText
  cases level <;> split <;> simp_all [joins, signs]

end Level

/-- A token of a kind. -/
abbrev TokenOf (kind : TokenKind) := {token : Token // token.kind = kind}

/-- An operator that is written as one of the given texts. -/
abbrev OperatorOf (texts : List String) :=
  {token : Token // token.kind = .operator ∧ token.text ∈ texts}

/-- The phrases of the grammar. -/
inductive Phrase where
  | expression (level : Level)
  /-- The operators behind a first operand, each with its right operand. -/
  | operations (level : Level)
  | binding
  /-- Any number of items with commas between them. -/
  | items (item : Phrase)
  /-- What follows the first of several items. -/
  | moreItems (item : Phrase)
  deriving DecidableEq, Repr

/-- The derivations of a phrase. -/
inductive ParseTree : Phrase → Type where
  /-- An operand of the next tighter level, and operations on it. -/
  | chain {level : Level} (loose : level ≠ .operand)
      (first : ParseTree (.expression level.tighter)) (more : ParseTree (.operations level)) :
      ParseTree (.expression level)
  | noOperation {level : Level} : ParseTree (.operations level)
  | operation {level : Level} (sign : OperatorOf level.signs)
      (right : ParseTree (.expression level.tighter)) (more : ParseTree (.operations level)) :
      ParseTree (.operations level)
  | paren (opening : TokenOf .leftParen) (inner : ParseTree (.expression .sum))
      (closing : TokenOf .rightParen) : ParseTree (.expression .operand)
  | negation (minus : OperatorOf ["-"]) (right : ParseTree (.expression .operand)) :
      ParseTree (.expression .operand)
  | number (token : TokenOf .number) : ParseTree (.expression .operand)
  | string (token : TokenOf .string) : ParseTree (.expression .operand)
  | access (name : TokenOf .identifier) : ParseTree (.expression .operand)
  | call (name : TokenOf .identifier) (opening : TokenOf .leftParen)
      (args : ParseTree (.items (.expression .sum))) (closing : TokenOf .rightParen) :
      ParseTree (.expression .operand)
  | letIn (word : TokenOf .letWord) (bound : ParseTree .binding) (inWord : TokenOf .inWord)
      (body : ParseTree (.expression .sum)) : ParseTree (.expression .operand)
  | letGroup (word : TokenOf .letWord) (arrow : TokenOf .singleArrow)
      (opening : TokenOf .leftBrace) (bindings : ParseTree (.items .binding))
      (closing : TokenOf .rightBrace) (inWord : TokenOf .inWord)
      (body : ParseTree (.expression .sum)) : ParseTree (.expression .operand)
  | ifThenElse (word : TokenOf .ifWord) (opening : TokenOf .leftParen)
      (left : ParseTree (.expression .sum)) (comparison : TokenOf .comparison)
      (right : ParseTree (.expression .sum)) (closing : TokenOf .rightParen)
      (thenWord : TokenOf .thenWord) (thenBranch : ParseTree (.expression .sum))
      (elseWord : TokenOf .elseWord) (elseBranch : ParseTree (.expression .sum)) :
      ParseTree (.expression .operand)
  | function (word : TokenOf .functionWord) (name : TokenOf .functionName)
      (parameters : List (TokenOf .parameter)) (arrow : TokenOf .doubleArrow)
      (body : ParseTree (.expression .sum)) : ParseTree (.expression .operand)
  | const (word : TokenOf .constWord) (bound : ParseTree .binding) :
      ParseTree (.expression .operand)
  | print (word : TokenOf .printWord) (opening : TokenOf .leftParen)
      (inner : ParseTree (.expression .sum)) (closing : TokenOf .rightParen) :
      ParseTree (.expression .operand)
  | binding (name : TokenOf .identifier) (equals : OperatorOf ["="])
      (value : ParseTree (.expression .sum)) : ParseTree .binding
  | noItems {item : Phrase} : ParseTree (.items item)
  | items {item : Phrase} (first : ParseTree item) (more : ParseTree (.moreItems item)) :
      ParseTree (.items item)
  | noMoreItems {item : Phrase} : ParseTree (.moreItems item)
  | moreItems {item : Phrase} (comma : TokenOf .comma) (first : ParseTree item)
      (more : ParseTree (.moreItems item)) : ParseTree (.moreItems item)

/-- What the derivations of a phrase stand for. -/
@[reducible] def Phrase.Value : Phrase → Type
  | expression _ => Expr
  | operations _ => List (Token × Expr)
  | binding => String × Expr
  | items item => List item.Value
  | moreItems item => List item.Value

/-- A row of operations applied to an operand, each to the result of those before it. -/
def Expr.operate (left : Expr) (operations : List (Token × Expr)) : Expr :=
  operations.foldl (fun left (sign, right) ↦ .binary sign.pos (.ofText sign.text) left right) left

namespace ParseTree

/-- The tokens that the tree derives. -/
def tokens : {phrase : Phrase} → ParseTree phrase → List Token
  | _, chain _ first more => first.tokens ++ more.tokens
  | _, noOperation => []
  | _, operation sign right more => sign.val :: (right.tokens ++ more.tokens)
  | _, paren opening inner closing => opening.val :: (inner.tokens ++ [closing.val])
  | _, negation minus right => minus.val :: right.tokens
  | _, number token => [token.val]
  | _, string token => [token.val]
  | _, access name => [name.val]
  | _, call name opening args closing =>
    name.val :: opening.val :: (args.tokens ++ [closing.val])
  | _, letIn word bound inWord body =>
    word.val :: (bound.tokens ++ inWord.val :: body.tokens)
  | _, letGroup word arrow opening bindings closing inWord body =>
    word.val :: arrow.val :: opening.val ::
      (bindings.tokens ++ closing.val :: inWord.val :: body.tokens)
  | _, ifThenElse word opening left comparison right closing thenWord thenBranch elseWord
      elseBranch =>
    word.val :: opening.val :: (left.tokens ++ comparison.val :: (right.tokens ++
      closing.val :: thenWord.val :: (thenBranch.tokens ++ elseWord.val :: elseBranch.tokens)))
  | _, function word name parameters arrow body =>
    word.val :: name.val :: (parameters.map (·.val) ++ arrow.val :: body.tokens)
  | _, const word bound => word.val :: bound.tokens
  | _, print word opening inner closing =>
    word.val :: opening.val :: (inner.tokens ++ [closing.val])
  | _, binding name equals value => name.val :: equals.val :: value.tokens
  | _, noItems => []
  | _, items first more => first.tokens ++ more.tokens
  | _, noMoreItems => []
  | _, moreItems comma first more => comma.val :: (first.tokens ++ more.tokens)

/-- What the tree stands for, given the names that are built in. -/
def value (builtins : NameMap Builtin) : {phrase : Phrase} → ParseTree phrase → phrase.Value
  | _, chain _ first more => Expr.operate (first.value builtins) (more.value builtins)
  | _, noOperation => []
  | _, operation sign right more =>
    (sign.val, right.value builtins) :: more.value builtins
  | _, paren _ inner _ => inner.value builtins
  | _, negation minus right =>
    .binary minus.val.pos .sub (.literal minus.val.pos (.number 0.0)) (right.value builtins)
  | _, number token =>
    .literal token.val.pos (.number ((Number.read? token.val.text).getD 0.0))
  | _, string token => .literal token.val.pos (.text token.val.text)
  | _, access name => .access name.val.pos name.val.text
  | _, call name _ args _ =>
    if builtins.contains name.val.text then
      .builtinCall name.val.pos name.val.text (args.value builtins)
    else .userCall name.val.pos name.val.text (args.value builtins)
  | _, letIn word bound _ body =>
    .letIn word.val.pos (bound.value builtins).1 (bound.value builtins).2 (body.value builtins)
  | _, letGroup word _ _ bindings _ _ body =>
    .letGroup word.val.pos (bindings.value builtins) (body.value builtins)
  | _, ifThenElse word _ left comparison right _ _ thenBranch _ elseBranch =>
    .ifThenElse word.val.pos
      (.binary comparison.val.pos (.ofText comparison.val.text) (left.value builtins)
        (right.value builtins))
      (thenBranch.value builtins) (elseBranch.value builtins)
  | _, function word _ _ _ _ => .endMarker word.val.pos
  | _, const word _ => .endMarker word.val.pos
  | _, print word _ _ _ => .endMarker word.val.pos
  | _, binding name _ value => (name.val.text, value.value builtins)
  | _, noItems => []
  | _, items first more => first.value builtins :: more.value builtins
  | _, noMoreItems => []
  | _, moreItems _ first more => first.value builtins :: more.value builtins

/-- The declarations inside the tree, in the order of their completion. -/
def declared (builtins : NameMap Builtin) :
    {phrase : Phrase} → ParseTree phrase → List Declaration
  | _, chain _ first more => first.declared builtins ++ more.declared builtins
  | _, noOperation => []
  | _, operation _ right more => right.declared builtins ++ more.declared builtins
  | _, paren _ inner _ => inner.declared builtins
  | _, negation _ right => right.declared builtins
  | _, number _ => []
  | _, string _ => []
  | _, access _ => []
  | _, call _ _ args _ => args.declared builtins
  | _, letIn _ bound _ body => bound.declared builtins ++ body.declared builtins
  | _, letGroup _ _ _ bindings _ _ body => bindings.declared builtins ++ body.declared builtins
  | _, ifThenElse _ _ left _ right _ _ thenBranch _ elseBranch =>
    left.declared builtins ++ (right.declared builtins ++
      (thenBranch.declared builtins ++ elseBranch.declared builtins))
  | _, function word name parameters _ body =>
    body.declared builtins ++ [.function ⟨word.val.pos, name.val.text,
      parameters.map (·.val.text), body.value builtins⟩]
  | _, const _ bound =>
    bound.declared builtins ++ [.constant (bound.value builtins).1 (bound.value builtins).2]
  | _, print _ _ inner _ => inner.declared builtins
  | _, binding _ _ value => value.declared builtins
  | _, noItems => []
  | _, items first more => first.declared builtins ++ more.declared builtins
  | _, noMoreItems => []
  | _, moreItems _ first more => first.declared builtins ++ more.declared builtins

/-- Whether the names and numbers in the tree are in order: every number text is a number,
every called name is a function in scope, and every declared function has a name that is
free and parameters that differ. Taken as declared before the tree are the given
declarations of the same statement. -/
def Valid : {phrase : Phrase} → ParseTree phrase → Scope → List Declaration → Prop
  | _, chain _ first more, scope, before =>
    first.Valid scope before ∧
      more.Valid scope (before ++ first.declared scope.declarations.builtins)
  | _, noOperation, _, _ => True
  | _, operation _ right more, scope, before =>
    right.Valid scope before ∧
      more.Valid scope (before ++ right.declared scope.declarations.builtins)
  | _, paren _ inner _, scope, before => inner.Valid scope before
  | _, negation _ right, scope, before => right.Valid scope before
  | _, number token, _, _ => (Number.read? token.val.text).isSome = true
  | _, string _, _, _ => True
  | _, access _, _, _ => True
  | _, call name _ args _, scope, before =>
    args.Valid scope before ∧
      (scope.declarations.isFunction name.val.text = true ∨
        scope.declaring = some name.val.text)
  | _, letIn _ bound _ body, scope, before =>
    bound.Valid scope before ∧
      body.Valid scope (before ++ bound.declared scope.declarations.builtins)
  | _, letGroup _ _ _ bindings _ _ body, scope, before =>
    bindings.Valid scope before ∧
      body.Valid scope (before ++ bindings.declared scope.declarations.builtins)
  | _, ifThenElse _ _ left _ right _ _ thenBranch _ elseBranch, scope, before =>
    let builtins := scope.declarations.builtins
    left.Valid scope before ∧
      right.Valid scope (before ++ left.declared builtins) ∧
      thenBranch.Valid scope (before ++ left.declared builtins ++ right.declared builtins) ∧
      elseBranch.Valid scope (before ++ left.declared builtins ++ right.declared builtins ++
        thenBranch.declared builtins)
  | _, function _ name parameters _ body, scope, before =>
    scope.declarations.isFunction name.val.text = false ∧
      (∀ declaration ∈ before, declaration.declaresFunction name.val.text = false) ∧
      (parameters.map (·.val.text)).Nodup ∧
      body.Valid { scope with declaring := some name.val.text } before
  | _, const _ bound, scope, before => bound.Valid scope before
  | _, print _ _ inner _, scope, before => inner.Valid scope before
  | _, binding _ _ value, scope, before => value.Valid scope before
  | _, noItems, _, _ => True
  | _, items first more, scope, before =>
    first.Valid scope before ∧
      more.Valid scope (before ++ first.declared scope.declarations.builtins)
  | _, noMoreItems, _, _ => True
  | _, moreItems _ first more, scope, before =>
    first.Valid scope before ∧
      more.Valid scope (before ++ first.declared scope.declarations.builtins)

end ParseTree

/-- Whether an expression of the level can end before the tokens: the first of them is none
of the operators that would carry it on. Behind an expression of the loosest level that is
none of the operators that join expressions. -/
def Level.EndsBefore (level : Level) (rest : List Token) : Prop :=
  ∀ token ∈ rest.head?, token.kind = .operator → token.text ∉ level.reach

/-- The end of a phrase before the tokens, where the phrase ends with an expression. -/
def Phrase.EndsBefore : Phrase → List Token → Prop
  | expression level, rest => level.EndsBefore rest
  | operations level, rest => level.EndsBefore rest
  | binding, rest => Level.sum.EndsBefore rest
  | items _, _ => True
  | moreItems _, _ => True

namespace ParseTree

/-- Whether no form whose last part is an expression is followed by an operator. The tokens
are those behind the tree. -/
def Greedy : {phrase : Phrase} → ParseTree phrase → List Token → Prop
  | _, chain _ first more, rest => first.Greedy (more.tokens ++ rest) ∧ more.Greedy rest
  | _, noOperation, _ => True
  | _, operation _ right more, rest => right.Greedy (more.tokens ++ rest) ∧ more.Greedy rest
  | _, paren _ inner closing, rest => inner.Greedy (closing.val :: rest)
  | _, negation _ right, rest => right.Greedy rest
  | _, number _, _ => True
  | _, string _, _ => True
  | _, access _, _ => True
  | _, call _ _ args closing, rest => args.Greedy (closing.val :: rest)
  | _, letIn _ bound inWord body, rest =>
    bound.Greedy (inWord.val :: (body.tokens ++ rest)) ∧
      body.Greedy rest ∧ Level.sum.EndsBefore rest
  | _, letGroup _ _ _ bindings closing inWord body, rest =>
    bindings.Greedy (closing.val :: inWord.val :: (body.tokens ++ rest)) ∧
      body.Greedy rest ∧ Level.sum.EndsBefore rest
  | _, ifThenElse _ _ left comparison right closing thenWord thenBranch elseWord elseBranch,
      rest =>
    left.Greedy (comparison.val :: (right.tokens ++ closing.val :: thenWord.val ::
        (thenBranch.tokens ++ elseWord.val :: (elseBranch.tokens ++ rest)))) ∧
      right.Greedy (closing.val :: thenWord.val ::
        (thenBranch.tokens ++ elseWord.val :: (elseBranch.tokens ++ rest))) ∧
      thenBranch.Greedy (elseWord.val :: (elseBranch.tokens ++ rest)) ∧
      elseBranch.Greedy rest ∧ Level.sum.EndsBefore rest
  | _, function _ _ _ _ body, rest => body.Greedy rest ∧ Level.sum.EndsBefore rest
  | _, const _ bound, rest => bound.Greedy rest ∧ Level.sum.EndsBefore rest
  | _, print _ _ inner closing, rest => inner.Greedy (closing.val :: rest)
  | _, binding _ _ value, rest => value.Greedy rest
  | _, noItems, _ => True
  | _, items first more, rest => first.Greedy (more.tokens ++ rest) ∧ more.Greedy rest
  | _, noMoreItems, _ => True
  | _, moreItems _ first more, rest => first.Greedy (more.tokens ++ rest) ∧ more.Greedy rest

/-- How many levels and forms of the tree stand inside each other. -/
def nesting : {phrase : Phrase} → ParseTree phrase → Nat
  | _, chain _ first more => max first.nesting more.nesting + 1
  | _, noOperation => 0
  | _, operation _ right more => max right.nesting more.nesting
  | _, paren _ inner _ => inner.nesting + 1
  | _, negation _ right => right.nesting + 1
  | _, number _ => 1
  | _, string _ => 1
  | _, access _ => 1
  | _, call _ _ args _ => args.nesting + 1
  | _, letIn _ bound _ body => max bound.nesting body.nesting + 1
  | _, letGroup _ _ _ bindings _ _ body => max bindings.nesting body.nesting + 1
  | _, ifThenElse _ _ left _ right _ _ thenBranch _ elseBranch =>
    max (max left.nesting right.nesting) (max thenBranch.nesting elseBranch.nesting) + 1
  | _, function _ _ _ _ body => body.nesting + 1
  | _, const _ bound => bound.nesting + 1
  | _, print _ _ inner _ => inner.nesting + 1
  | _, binding _ _ value => value.nesting
  | _, noItems => 0
  | _, items first more => max first.nesting more.nesting
  | _, noMoreItems => 0
  | _, moreItems _ first more => max first.nesting more.nesting

/-- The tree is a reading of the row up to what is left of it: its tokens are the ones taken
off, its declarations are the ones staged in between, and it is in order. -/
structure Fits {phrase : Phrase} (tree : ParseTree phrase) (scope : Scope)
    (row after : TokenRow) : Prop where
  tokens : row.rest = tree.tokens ++ after.rest
  staged : after.staged = row.staged ++ tree.declared scope.declarations.builtins
  valid : tree.Valid scope row.staged
  greedy : tree.Greedy after.rest
  ends : phrase.EndsBefore after.rest

end ParseTree

end Reckoner
