import Mathlib.Computability.Language
import Reckoner.Proofs.Grammar.StatementTree

/-!
The languages of the phrases: the rows of tokens that derivations have, whatever the names in them
mean and however they are grouped. An expression is an operand and any number of operations behind
it, of all levels; so what follows an expression that ends a form may as well belong to the form.
-/

set_option autoImplicit false
set_option relaxedAutoImplicit false

namespace Reckoner

open Computability

/-! ### Words -/

/-- The words of one token that has the property. -/
def Token.single (property : Token → Prop) : Language Token :=
  {word | ∃ token, property token ∧ word = [token]}

/-- The words of one token of the kind. -/
abbrev TokenKind.language (kind : TokenKind) : Language Token :=
  Token.single (·.kind = kind)

/-- The words of one operator that is written as one of the texts. -/
abbrev Operator.language (texts : List String) : Language Token :=
  Token.single fun token ↦ token.kind = .operator ∧ token.text ∈ texts

/-- The words that the phrase derives. -/
def Phrase.language (phrase : Phrase) : Language Token :=
  {word | ∃ tree : ParseTree phrase, tree.tokens = word}

/-- The words that statements derive. -/
def Statement.language : Language Token :=
  {word | ∃ (tree : StatementTree) (mark : TokenOf .eof),
    word = tree.expr.tokens ++ (tree.ending ++ [mark.val])}

/-- Whether there is a word in the language. -/
def HasWord (language : Language Token) : Prop :=
  ∃ word, word ∈ language

variable {property : Token → Prop} {phrase item : Phrase} {level : Level} {token : Token}
  {word : List Token} {first behind : Language Token}

namespace Token

theorem singleton_mem_single (h : property token) : [token] ∈ single property :=
  ⟨token, h, rfl⟩

theorem cons_mem_single_mul :
    token :: word ∈ single property * behind ↔ property token ∧ word ∈ behind := by
  rw [Language.mem_mul]
  constructor
  · rintro ⟨_, ⟨first, hfirst, rfl⟩, more, hmore, hword⟩
    obtain ⟨rfl, rfl⟩ := List.cons.inj hword
    exact ⟨hfirst, hmore⟩
  · rintro ⟨htoken, hword⟩
    exact ⟨[token], singleton_mem_single htoken, word, hword, rfl⟩

theorem cons_mem (htoken : property token) (hword : word ∈ behind) :
    token :: word ∈ single property * behind :=
  cons_mem_single_mul.mpr ⟨htoken, hword⟩

theorem nil_notMem_single_mul : [] ∉ single property * behind := by
  rintro h
  obtain ⟨_, ⟨first, -, rfl⟩, more, -, hword⟩ := Language.mem_mul.mp h
  cases hword

theorem mem_single_mul : word ∈ single property * behind ↔
    ∃ (token : {token // property token}) (rest : List Token), rest ∈ behind ∧
      word = token.val :: rest := by
  constructor
  · intro h
    cases word with
    | nil => exact absurd h nil_notMem_single_mul
    | cons token rest =>
      obtain ⟨htoken, hrest⟩ := cons_mem_single_mul.mp h
      exact ⟨⟨token, htoken⟩, rest, hrest, rfl⟩
  · rintro ⟨token, rest, hrest, rfl⟩
    exact cons_mem token.property hrest

end Token

namespace Phrase

theorem tokens_mem (tree : ParseTree phrase) : tree.tokens ∈ phrase.language :=
  ⟨tree, rfl⟩

theorem append_mem (tree : ParseTree phrase) (hword : word ∈ behind) :
    tree.tokens ++ word ∈ phrase.language * behind :=
  Language.append_mem_mul (tokens_mem tree) hword

theorem mem_language_mul : word ∈ phrase.language * behind ↔
    ∃ (tree : ParseTree phrase) (rest : List Token), rest ∈ behind ∧
      word = tree.tokens ++ rest := by
  rw [Language.mem_mul]
  constructor
  · rintro ⟨_, ⟨tree, rfl⟩, rest, hrest, rfl⟩
    exact ⟨tree, rest, hrest, rfl⟩
  · rintro ⟨tree, rest, hrest, rfl⟩
    exact ⟨_, tokens_mem tree, rest, hrest, rfl⟩

/-! ### Rows of operations -/

theorem language_chain (loose : level ≠ .operand) : (expression level).language =
    (expression level.tighter).language * (operations level).language := by
  ext word
  rw [mem_language_mul]
  constructor
  · rintro ⟨tree, rfl⟩
    cases tree with
    | chain _ first more => exact ⟨first, more.tokens, tokens_mem more, rfl⟩
    | _ => exact absurd rfl loose
  · rintro ⟨first, _, ⟨more, rfl⟩, rfl⟩
    exact ⟨.chain loose first more, rfl⟩

theorem language_operations (level : Level) : (operations level).language =
    (Operator.language level.signs * (expression level.tighter).language)∗ := by
  have hstep : (operations level).language = Operator.language level.signs *
      (expression level.tighter).language * (operations level).language + 1 := by
    ext word
    rw [Language.mem_add, Language.mem_one, mul_assoc]
    constructor
    · rintro ⟨tree, rfl⟩
      cases tree with
      | noOperation => exact .inr rfl
      | operation sign right more =>
        exact .inl (Token.cons_mem_single_mul.mpr ⟨sign.property,
          Language.append_mem_mul (tokens_mem right) (tokens_mem more)⟩)
    · rintro (h | rfl)
      · obtain ⟨sign, _, hright, rfl⟩ := Token.mem_single_mul.mp h
        obtain ⟨right, _, ⟨more, rfl⟩, rfl⟩ := mem_language_mul.mp hright
        exact ⟨.operation sign right more, rfl⟩
      · exact ⟨.noOperation, rfl⟩
  have hone := (Language.self_eq_mul_add_iff Token.nil_notMem_single_mul).mp hstep
  rwa [mul_one] at hone

end Phrase

/-- Any number of two things in a row are some of the first, and then again and again one of the
second with some of the first behind it. -/
theorem kstar_mul_kstar_mul_kstar {α : Type*} [KleeneAlgebra α] (a b : α) :
    a∗ * (b * a∗)∗ = (a + b)∗ := by
  apply le_antisymm
  · have ha : a∗ ≤ (a + b)∗ := kstar_mono (by simp)
    have hb : b * a∗ ≤ (a + b)∗ := by
      calc b * a∗ ≤ (a + b)∗ * (a + b)∗ := mul_le_mul' (le_trans (by simp) le_kstar) ha
        _ = (a + b)∗ := kstar_mul_kstar _
    calc a∗ * (b * a∗)∗ ≤ (a + b)∗ * (a + b)∗∗ := mul_le_mul' ha (kstar_mono hb)
      _ = (a + b)∗ := by rw [kstar_idem, kstar_mul_kstar]
  · refine kstar_le_of_mul_le_right ?_ ?_
    · calc (1 : α) = 1 * 1 := (mul_one 1).symm
        _ ≤ a∗ * (b * a∗)∗ := mul_le_mul' one_le_kstar one_le_kstar
    · rw [add_mul]
      refine add_le ?_ ?_
      · rw [← mul_assoc]
        exact mul_le_mul' mul_kstar_le_kstar le_rfl
      · rw [← mul_assoc]
        calc b * a∗ * (b * a∗)∗ ≤ (b * a∗)∗ := mul_kstar_le_kstar
          _ = 1 * (b * a∗)∗ := (one_mul _).symm
          _ ≤ a∗ * (b * a∗)∗ := mul_le_mul' one_le_kstar le_rfl

/-! ### Expressions -/

/-- The words that expressions derive. -/
abbrev exprs : Language Token :=
  (Phrase.expression .sum).language

abbrev operands : Language Token :=
  (Phrase.expression .operand).language

/-- Operators of any level, each with an operand behind it. -/
def tails : Language Token :=
  (Operator.language Level.sum.reach * operands)∗

/-- What carries on an expression of a level is an operator of a tighter level or of its own. -/
theorem Level.language_reach (level : Level) : Operator.language level.reach =
    Operator.language level.tighter.reach + Operator.language level.signs := by
  ext word
  rw [Language.mem_add]
  constructor
  · rintro ⟨token, ⟨hkind, htext⟩, rfl⟩
    rcases (level.mem_reach _).mp htext with hsign | htighter
    · exact .inr ⟨token, ⟨hkind, hsign⟩, rfl⟩
    · exact .inl ⟨token, ⟨hkind, htighter⟩, rfl⟩
  · rintro (⟨token, ⟨hkind, htext⟩, rfl⟩ | ⟨token, ⟨hkind, htext⟩, rfl⟩)
    · exact ⟨token, ⟨hkind, (level.mem_reach _).mpr (.inr htext)⟩, rfl⟩
    · exact ⟨token, ⟨hkind, (level.mem_reach _).mpr (.inl htext)⟩, rfl⟩

theorem Level.mem_sum_reach {level : Level} {text : String} (h : text ∈ level.signs) :
    text ∈ sum.reach := by
  cases level <;> simp_all [signs, reach] <;> grind

/-- Expressions of a level are operands with operations of the level and all tighter ones. -/
theorem Phrase.language_expression (level : Level) : (expression level).language =
    operands * (Operator.language level.reach * operands)∗ := by
  have hloose (level : Level) (loose : level ≠ .operand)
      (h : (expression level.tighter).language =
        operands * (Operator.language level.tighter.reach * operands)∗) :
      (expression level).language = operands * (Operator.language level.reach * operands)∗ := by
    rw [language_chain loose, language_operations, h, level.language_reach, add_mul,
      ← kstar_mul_kstar_mul_kstar, mul_assoc, mul_assoc]
  have hnone : Operator.language Level.operand.reach = 0 := by
    ext word
    refine iff_of_false ?_ (Language.notMem_zero word)
    rintro ⟨token, ⟨-, htext⟩, rfl⟩
    cases htext
  have hoperand : operands = operands * (Operator.language Level.operand.reach * operands)∗ := by
    rw [hnone, zero_mul, kstar_zero, mul_one]
  have hpower := hloose .power nofun hoperand
  have hproduct := hloose .product nofun hpower
  cases level with
  | sum => exact hloose .sum nofun hproduct
  | product => exact hproduct
  | power => exact hpower
  | operand => exact hoperand

theorem exprs_eq : exprs = operands * tails :=
  Phrase.language_expression .sum

/-- Operations behind an expression are part of an expression. -/
theorem exprs_mul_tails : exprs * tails = exprs := by
  rw [exprs_eq, mul_assoc, tails, kstar_mul_kstar]

theorem exprs_mul_tails_mul : exprs * (tails * behind) = exprs * behind := by
  rw [← mul_assoc, exprs_mul_tails]

theorem operands_mul_tails_mul : operands * (tails * behind) = exprs * behind := by
  rw [← mul_assoc, ← exprs_eq]

/-! ### The parts of forms -/

namespace Phrase

theorem language_binding :
    binding.language = TokenKind.identifier.language * (Operator.language ["="] * exprs) := by
  ext word
  constructor
  · rintro ⟨tree, rfl⟩
    cases tree with
    | binding name equals value =>
      exact Token.cons_mem_single_mul.mpr ⟨name.property,
        Token.cons_mem_single_mul.mpr ⟨equals.property, tokens_mem value⟩⟩
  · intro h
    obtain ⟨name, _, hequals, rfl⟩ := Token.mem_single_mul.mp h
    obtain ⟨equals, _, ⟨value, rfl⟩, rfl⟩ := Token.mem_single_mul.mp hequals
    exact ⟨.binding name equals value, rfl⟩

theorem language_items (item : Phrase) :
    (items item).language = 1 + item.language * (moreItems item).language := by
  ext word
  rw [Language.mem_add, Language.mem_one, mem_language_mul]
  constructor
  · rintro ⟨tree, rfl⟩
    cases tree with
    | noItems => exact .inl rfl
    | items first more => exact .inr ⟨first, _, tokens_mem more, rfl⟩
  · rintro (rfl | ⟨first, _, ⟨more, rfl⟩, rfl⟩)
    · exact ⟨.noItems, rfl⟩
    · exact ⟨.items first more, rfl⟩

theorem language_moreItems (item : Phrase) : (moreItems item).language =
    1 + TokenKind.comma.language * (item.language * (moreItems item).language) := by
  ext word
  rw [Language.mem_add, Language.mem_one]
  constructor
  · rintro ⟨tree, rfl⟩
    cases tree with
    | noMoreItems => exact .inl rfl
    | moreItems comma first more =>
      exact .inr (Token.cons_mem_single_mul.mpr ⟨comma.property,
        Language.append_mem_mul (tokens_mem first) (tokens_mem more)⟩)
  · rintro (rfl | h)
    · exact ⟨.noMoreItems, rfl⟩
    · obtain ⟨comma, _, hfirst, rfl⟩ := Token.mem_single_mul.mp h
      obtain ⟨first, _, ⟨more, rfl⟩, rfl⟩ := mem_language_mul.mp hfirst
      exact ⟨.moreItems comma first more, rfl⟩

end Phrase

/-- A row of tokens with a property. -/
theorem Token.mem_kstar_single : word ∈ (single property)∗ ↔ ∀ token ∈ word, property token := by
  constructor
  · rintro ⟨parts, rfl, hparts⟩ token htoken
    obtain ⟨part, hpart, htoken⟩ := List.mem_flatten.mp htoken
    obtain ⟨only, honly, rfl⟩ := hparts part hpart
    cases List.mem_singleton.mp htoken
    exact honly
  · intro h
    refine Language.mem_kstar.mpr ⟨word.map fun token ↦ [token], ?_, fun part hpart ↦ ?_⟩
    · rw [← List.flatMap_def, List.flatMap_singleton']
    obtain ⟨token, htoken, rfl⟩ := List.mem_map.mp hpart
    exact singleton_mem_single (h token htoken)

/-! ### Operands -/

/-- What stands behind the first token of an operand and what follows the operand. -/
def Token.operandRest (token : Token) (behind : Language Token) : Language Token :=
  match token.kind with
  | .leftParen => exprs * (TokenKind.rightParen.language * behind)
  | .operator => if token.text = "-" then operands * behind else 0
  | .number => behind
  | .string => behind
  | .identifier => behind + TokenKind.leftParen.language *
      ((Phrase.items (.expression .sum)).language * (TokenKind.rightParen.language * behind))
  | .letWord => TokenKind.singleArrow.language * (TokenKind.leftBrace.language *
        ((Phrase.items .binding).language * (TokenKind.rightBrace.language *
          (TokenKind.inWord.language * (exprs * behind))))) +
      Phrase.binding.language * (TokenKind.inWord.language * (exprs * behind))
  | .ifWord => TokenKind.leftParen.language * (exprs * (TokenKind.comparison.language *
      (exprs * (TokenKind.rightParen.language * (TokenKind.thenWord.language *
        (exprs * (TokenKind.elseWord.language * (exprs * behind))))))))
  | .functionWord => TokenKind.functionName.language * (TokenKind.parameter.language∗ *
      (TokenKind.doubleArrow.language * (exprs * behind)))
  | .constWord => Phrase.binding.language * behind
  | .printWord => TokenKind.leftParen.language *
      (exprs * (TokenKind.rightParen.language * behind))
  | _ => 0

open Token Phrase ParseTree

theorem Token.mem_operandRest (h : token :: word ∈ operands * behind) :
    word ∈ token.operandRest behind := by
  obtain ⟨tree, rest, hrest, hword⟩ := mem_language_mul.mp h
  have hcons {token' : Token} {word' : List Token} (htree : tree.tokens = token' :: word') :
      token = token' ∧ word = word' ++ rest := by
    rw [htree, List.cons_append] at hword
    exact List.cons.inj hword
  cases tree with
  | chain loose => exact absurd rfl loose
  | paren opening inner closing =>
    obtain ⟨rfl, rfl⟩ := hcons rfl
    simp only [operandRest, opening.property, List.append_assoc]
    exact append_mem inner (cons_mem closing.property hrest)
  | negation minus right =>
    obtain ⟨rfl, rfl⟩ := hcons rfl
    simp only [operandRest, minus.property.1, List.mem_singleton.mp minus.property.2, if_true]
    exact append_mem right hrest
  | number number =>
    obtain ⟨rfl, rfl⟩ := hcons rfl
    simpa only [operandRest, number.property] using hrest
  | string string =>
    obtain ⟨rfl, rfl⟩ := hcons rfl
    simpa only [operandRest, string.property] using hrest
  | access name =>
    obtain ⟨rfl, rfl⟩ := hcons rfl
    simp only [operandRest, name.property]
    exact .inl hrest
  | call name opening args closing =>
    obtain ⟨rfl, rfl⟩ := hcons rfl
    simp only [operandRest, name.property, List.cons_append, List.append_assoc]
    exact .inr (cons_mem opening.property (append_mem args (cons_mem closing.property hrest)))
  | letIn letWord bound inWord body =>
    obtain ⟨rfl, rfl⟩ := hcons rfl
    simp only [operandRest, letWord.property, List.append_assoc, List.cons_append]
    exact .inr (append_mem bound (cons_mem inWord.property (append_mem body hrest)))
  | letGroup letWord arrow opening bindings closing inWord body =>
    obtain ⟨rfl, rfl⟩ := hcons rfl
    simp only [operandRest, letWord.property, List.append_assoc, List.cons_append]
    exact .inl (cons_mem arrow.property (cons_mem opening.property (append_mem bindings
      (cons_mem closing.property (cons_mem inWord.property (append_mem body hrest))))))
  | ifThenElse ifWord opening left comparison right closing thenWord thenBranch elseWord
      elseBranch =>
    obtain ⟨rfl, rfl⟩ := hcons rfl
    simp only [operandRest, ifWord.property, List.append_assoc, List.cons_append]
    exact cons_mem opening.property (append_mem left (cons_mem comparison.property
      (append_mem right (cons_mem closing.property (cons_mem thenWord.property
        (append_mem thenBranch (cons_mem elseWord.property (append_mem elseBranch hrest))))))))
  | function functionWord name parameters arrow body =>
    obtain ⟨rfl, rfl⟩ := hcons rfl
    simp only [operandRest, functionWord.property, List.append_assoc, List.cons_append]
    refine cons_mem name.property (Language.append_mem_mul (mem_kstar_single.mpr ?_)
      (cons_mem arrow.property (append_mem body hrest)))
    intro parameter hparameter
    obtain ⟨found, -, rfl⟩ := List.mem_map.mp hparameter
    exact found.property
  | const constWord bound =>
    obtain ⟨rfl, rfl⟩ := hcons rfl
    simp only [operandRest, constWord.property]
    exact append_mem bound hrest
  | print printWord opening inner closing =>
    obtain ⟨rfl, rfl⟩ := hcons rfl
    simp only [operandRest, printWord.property, List.append_assoc, List.cons_append]
    exact cons_mem opening.property (append_mem inner (cons_mem closing.property hrest))

theorem Token.cons_mem_operands_mul (h : word ∈ token.operandRest behind) :
    token :: word ∈ operands * behind := by
  have hmem (tree : ParseTree (.expression .operand)) {rest : List Token} (hrest : rest ∈ behind)
      (hword : token :: word = tree.tokens ++ rest) : token :: word ∈ operands * behind :=
    mem_language_mul.mpr ⟨tree, rest, hrest, hword⟩
  unfold operandRest at h
  split at h
  · next hkind =>
    obtain ⟨inner, _, hclosing, rfl⟩ := mem_language_mul.mp h
    obtain ⟨closing, rest, hrest, rfl⟩ := mem_single_mul.mp hclosing
    exact hmem (.paren ⟨token, hkind⟩ inner closing) hrest (by simp [tokens])
  · next hkind =>
    split at h
    · next htext =>
      obtain ⟨right, rest, hrest, rfl⟩ := mem_language_mul.mp h
      exact hmem (.negation ⟨token, hkind, List.mem_singleton.mpr htext⟩ right) hrest rfl
    · exact absurd h (Language.notMem_zero word)
  · next hkind => exact hmem (.number ⟨token, hkind⟩) h rfl
  · next hkind => exact hmem (.string ⟨token, hkind⟩) h rfl
  · next hkind =>
    rcases h with h | h
    · exact hmem (.access ⟨token, hkind⟩) h rfl
    · obtain ⟨opening, _, hargs, rfl⟩ := mem_single_mul.mp h
      obtain ⟨args, _, hclosing, rfl⟩ := mem_language_mul.mp hargs
      obtain ⟨closing, rest, hrest, rfl⟩ := mem_single_mul.mp hclosing
      exact hmem (.call ⟨token, hkind⟩ opening args closing) hrest (by simp [tokens])
  · next hkind =>
    rcases h with h | h
    · obtain ⟨arrow, _, hopening, rfl⟩ := mem_single_mul.mp h
      obtain ⟨opening, _, hbindings, rfl⟩ := mem_single_mul.mp hopening
      obtain ⟨bindings, _, hclosing, rfl⟩ := mem_language_mul.mp hbindings
      obtain ⟨closing, _, hin, rfl⟩ := mem_single_mul.mp hclosing
      obtain ⟨inWord, _, hbody, rfl⟩ := mem_single_mul.mp hin
      obtain ⟨body, rest, hrest, rfl⟩ := mem_language_mul.mp hbody
      exact hmem (.letGroup ⟨token, hkind⟩ arrow opening bindings closing inWord body) hrest
        (by simp [tokens])
    · obtain ⟨bound, _, hin, rfl⟩ := mem_language_mul.mp h
      obtain ⟨inWord, _, hbody, rfl⟩ := mem_single_mul.mp hin
      obtain ⟨body, rest, hrest, rfl⟩ := mem_language_mul.mp hbody
      exact hmem (.letIn ⟨token, hkind⟩ bound inWord body) hrest (by simp [tokens])
  · next hkind =>
    obtain ⟨opening, _, hleft, rfl⟩ := mem_single_mul.mp h
    obtain ⟨left, _, hcomparison, rfl⟩ := mem_language_mul.mp hleft
    obtain ⟨comparison, _, hright, rfl⟩ := mem_single_mul.mp hcomparison
    obtain ⟨right, _, hclosing, rfl⟩ := mem_language_mul.mp hright
    obtain ⟨closing, _, hthen, rfl⟩ := mem_single_mul.mp hclosing
    obtain ⟨thenWord, _, hthenBranch, rfl⟩ := mem_single_mul.mp hthen
    obtain ⟨thenBranch, _, helse, rfl⟩ := mem_language_mul.mp hthenBranch
    obtain ⟨elseWord, _, helseBranch, rfl⟩ := mem_single_mul.mp helse
    obtain ⟨elseBranch, rest, hrest, rfl⟩ := mem_language_mul.mp helseBranch
    exact hmem (.ifThenElse ⟨token, hkind⟩ opening left comparison right closing thenWord
      thenBranch elseWord elseBranch) hrest (by simp [tokens])
  · next hkind =>
    obtain ⟨name, _, hnamed, rfl⟩ := mem_single_mul.mp h
    obtain ⟨parameters, hparameters, _, harrow, rfl⟩ := Language.mem_mul.mp hnamed
    obtain ⟨arrow, _, hbody, rfl⟩ := mem_single_mul.mp harrow
    obtain ⟨body, rest, hrest, rfl⟩ := mem_language_mul.mp hbody
    have hkinds := mem_kstar_single.mp hparameters
    refine hmem (.function ⟨token, hkind⟩ name (parameters.attachWith _ hkinds) arrow body)
      hrest ?_
    simp [tokens]
  · next hkind =>
    obtain ⟨bound, rest, hrest, rfl⟩ := mem_language_mul.mp h
    exact hmem (.const ⟨token, hkind⟩ bound) hrest rfl
  · next hkind =>
    obtain ⟨opening, _, hinner, rfl⟩ := mem_single_mul.mp h
    obtain ⟨inner, _, hclosing, rfl⟩ := mem_language_mul.mp hinner
    obtain ⟨closing, rest, hrest, rfl⟩ := mem_single_mul.mp hclosing
    exact hmem (.print ⟨token, hkind⟩ opening inner closing) hrest (by simp [tokens])
  · exact absurd h (Language.notMem_zero word)

/-- What can stand behind the first token of an operand. -/
theorem Token.cons_mem_operands_mul_iff :
    token :: word ∈ operands * behind ↔ word ∈ token.operandRest behind :=
  ⟨mem_operandRest, cons_mem_operands_mul⟩

/-! ### Statements -/

theorem Statement.language_eq : Statement.language =
    exprs * ((TokenKind.semicolon.language + 1) * TokenKind.eof.language) := by
  ext word
  rw [mem_language_mul, add_mul, one_mul]
  constructor
  · rintro ⟨⟨expr, semicolon⟩, mark, rfl⟩
    have hmark : [mark.val] ∈ TokenKind.eof.language := singleton_mem_single mark.property
    cases semicolon with
    | none => exact ⟨expr, _, .inr hmark, rfl⟩
    | some semicolon => exact ⟨expr, _, .inl (cons_mem semicolon.property hmark), rfl⟩
  · rintro ⟨expr, _, h | ⟨mark, hmark, rfl⟩, rfl⟩
    · obtain ⟨semicolon, _, ⟨mark, hmark, rfl⟩, rfl⟩ := mem_single_mul.mp h
      exact ⟨⟨expr, some semicolon⟩, ⟨mark, hmark⟩, rfl⟩
    · exact ⟨⟨expr, none⟩, ⟨mark, hmark⟩, rfl⟩

/-! ### What follows expressions -/

/-- Whether every expression has come to its end before the words. -/
def Stops (behind : Language Token) : Prop :=
  ∀ word ∈ behind, Level.sum.EndsBefore word ∧ NoParen word

theorem stops_kind_mul {kind : TokenKind} (hoperator : kind ≠ .operator)
    (hparen : kind ≠ .leftParen) (behind : Language Token) : Stops (kind.language * behind) := by
  intro word h
  obtain ⟨token, rest, -, rfl⟩ := mem_single_mul.mp h
  exact ⟨Level.sum.endsBefore_cons (by rwa [token.property]) rest,
    noParen_cons (by rwa [token.property]) rest⟩

theorem Stops.add (hfirst : Stops first) (hbehind : Stops behind) : Stops (first + behind) :=
  fun word h ↦ h.elim (hfirst word) (hbehind word)

theorem tails_mul : tails * behind =
    Operator.language Level.sum.reach * (exprs * behind) + behind := by
  have htails : tails = 1 + Operator.language Level.sum.reach * operands * tails :=
    one_add_mul_kstar.symm
  calc tails * behind = (1 + Operator.language Level.sum.reach * operands * tails) * behind := by
        rw [← htails]
    _ = Operator.language Level.sum.reach * (exprs * behind) + behind := by
        rw [add_mul, one_mul, add_comm, mul_assoc, mul_assoc, operands_mul_tails_mul]

/-- No parenthesis opens behind an expression. -/
theorem noParen_of_mem_tails_mul (hstops : Stops behind) (h : word ∈ tails * behind) :
    NoParen word := by
  rw [tails_mul] at h
  rcases h with h | h
  · obtain ⟨sign, rest, -, rfl⟩ := mem_single_mul.mp h
    exact noParen_cons (by simp [sign.property.1]) rest
  · exact (hstops word h).2

/-- Where no operator comes next, no operation is left. -/
theorem mem_of_mem_tails_mul (hends : Level.sum.EndsBefore word) (h : word ∈ tails * behind) :
    word ∈ behind := by
  rw [tails_mul] at h
  rcases h with h | h
  · obtain ⟨sign, rest, -, rfl⟩ := mem_single_mul.mp h
    exact absurd sign.property.2 (hends sign.val rfl sign.property.1)
  · exact h

/-! ### Words in languages -/

namespace HasWord

@[simp] theorem mul_iff : HasWord (first * behind) ↔ HasWord first ∧ HasWord behind := by
  constructor
  · rintro ⟨_, front, hfront, rest, hrest, rfl⟩
    exact ⟨⟨front, hfront⟩, rest, hrest⟩
  · rintro ⟨⟨front, hfront⟩, rest, hrest⟩
    exact ⟨front ++ rest, Language.append_mem_mul hfront hrest⟩

theorem add_iff : HasWord (first + behind) ↔ HasWord first ∨ HasWord behind := by
  constructor
  · rintro ⟨word, h | h⟩
    · exact .inl ⟨word, h⟩
    · exact .inr ⟨word, h⟩
  · rintro (⟨word, h⟩ | ⟨word, h⟩)
    · exact ⟨word, .inl h⟩
    · exact ⟨word, .inr h⟩

theorem not_zero : ¬ HasWord (0 : Language Token) := by
  rintro ⟨word, h⟩
  exact Language.notMem_zero word h

@[simp] theorem one : HasWord (1 : Language Token) :=
  ⟨[], rfl⟩

@[simp] theorem kstar : HasWord first∗ :=
  ⟨[], Language.nil_mem_kstar first⟩

@[simp] theorem tails : HasWord Reckoner.tails :=
  kstar

@[simp] theorem kind (kind : TokenKind) : HasWord kind.language :=
  ⟨[⟨kind, "", .start⟩], singleton_mem_single rfl⟩

@[simp] theorem operands : HasWord Reckoner.operands :=
  ⟨_, tokens_mem (.number ⟨⟨.number, "0", .start⟩, rfl⟩)⟩

@[simp] theorem exprs : HasWord Reckoner.exprs := by
  rw [exprs_eq]
  simp

@[simp] theorem equals : HasWord (Operator.language ["="]) :=
  ⟨[⟨.operator, "=", .start⟩], singleton_mem_single (by simp)⟩

@[simp] theorem binding : HasWord Phrase.binding.language := by
  rw [language_binding]
  simp

@[simp] theorem items (item : Phrase) : HasWord (Phrase.items item).language :=
  ⟨[], .noItems, rfl⟩

@[simp] theorem moreItems (item : Phrase) : HasWord (Phrase.moreItems item).language :=
  ⟨[], .noMoreItems, rfl⟩

theorem of_isItem (h : item.IsItem) : HasWord item.language := by
  cases item with
  | expression level =>
    rw [language_expression]
    simp
  | binding => exact binding
  | operations level => exact h.elim
  | items item => exact h.elim
  | moreItems item => exact h.elim

end HasWord

/-- No operand starts with an end mark. -/
theorem Token.kind_ne_eof_of_operandRest (h : HasWord (token.operandRest behind)) :
    token.kind ≠ .eof := by
  intro heof
  rw [operandRest, heof] at h
  exact HasWord.not_zero h

end Reckoner
