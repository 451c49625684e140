import Reckoner.Proofs.Grammar.Substitution
import Reckoner.Proofs.Token.Numeral

/-!
Numbers with a sign, and the subtractions that they become when a blank is put in behind the sign.
The sign and the number are an operand wherever the number with the sign was one. The other way
round, where they stand no operand ends in front of the sign, so it cannot join two operands: in
every derivation it is the sign of the number.
-/

set_option autoImplicit false
set_option relaxedAutoImplicit false

namespace Reckoner

namespace SignPlace

variable (place : SignPlace)

/-- The sign as the operator of a negation. -/
def sign : OperatorOf ["-"] :=
  ⟨place.minus, rfl, List.mem_singleton.mpr rfl⟩

/-- The sign and the number in the place of the number with the sign, and all that follows on the
line one column further. -/
def splitting : Substitution where
  token := ⟨place.folded, rfl⟩
  operand := .negation place.sign (.number ⟨place.number, rfl⟩)
  move := Pos.spaced place.pos

variable {place}

theorem expand_folded : place.splitting.expand place.folded = [place.minus, place.number] :=
  if_pos rfl

theorem isSome_read? (h : Lexeme.startsNumeral place.behind = true) :
    (Number.read? place.folded.text).isSome = true ∧
      (Number.read? place.number.text).isSome = true := by
  have hnumeral := Lexeme.isNumeral_numeral h
  constructor
  · refine Number.isSome_read? ⟨['-'], _, ?_, .inr rfl, hnumeral⟩
    rw [folded, String.toList_ofList]
    rfl
  · refine Number.isSome_read? ⟨[], _, ?_, .inl rfl, hnumeral⟩
    rw [number, String.toList_ofList]
    rfl

/-- Both numbers are in order, and nothing is declared in them. -/
theorem plain_splitting (h : Lexeme.startsNumeral place.behind = true) :
    place.splitting.Plain where
  isNumber := (isSome_read? h).1
  declared _ := rfl
  valid _ _ := (isSome_read? h).2
  greedy _ := trivial

end SignPlace

/-! ### Back to the number -/

/-- Whether the second row of tokens is what becomes of the first one, in which no operand ends
right before the number. -/
structure SignPlace.Becomes (place : SignPlace) (source found : List Token) : Prop where
  expanded : found = source.flatMap place.splitting.expand
  leads : place.splitting.Leads source

/-- Whether the phrase may start in front of the tokens: operations do not start at the number. -/
def SignPlace.MayStart (place : SignPlace) : Phrase → List Token → Prop
  | .expression _, _ => True
  | .operations _, source => ∀ first ∈ source.head?, first ≠ place.folded
  | .binding, _ => True
  | .items item, _ => item.IsItem
  | .moreItems item, _ => item.IsItem

theorem Phrase.IsItem.mayStart {item : Phrase} (h : item.IsItem) (place : SignPlace)
    (source : List Token) : place.MayStart item source := by
  cases item with
  | expression level => trivial
  | binding => trivial
  | _ => exact h.elim

namespace ParseTree

variable {place : SignPlace} {source rest : List Token}

/-- A token in front that does not come from the number. -/
theorem exists_token {token : Token} (h : place.Becomes source (token :: rest))
    (hhead : ∀ first ∈ source.head?, first ≠ place.folded) : ∃ first behind,
      source = first :: behind ∧ first.moved place.splitting.move = token ∧
        first ≠ place.folded ∧ place.Becomes behind rest := by
  obtain ⟨hexpanded, hleads⟩ := h
  cases source with
  | nil => cases hexpanded
  | cons first behind =>
    have hne := hhead first rfl
    rw [List.flatMap_cons, Substitution.expand_of_ne hne] at hexpanded
    obtain ⟨rfl, hrest⟩ := List.cons.inj hexpanded
    exact ⟨first, behind, rfl, rfl, hne, hrest, hleads.tail⟩

theorem exists_tokenOf {kind : TokenKind} {token : TokenOf kind} (hkind : kind ≠ .operator)
    (h : place.Becomes source (token.val :: rest)) :
    ∃ (first : TokenOf kind) (behind : List Token), source = first.val :: behind ∧
      first.moved place.splitting.move = token ∧ first.val ≠ place.folded ∧
        place.Becomes behind rest := by
  have hhead : ∀ first ∈ source.head?, first ≠ place.folded := by
    rintro first hfirst rfl
    obtain ⟨behind, rfl⟩ := List.head?_eq_some_iff.mp hfirst
    have hexpanded := h.expanded
    rw [List.flatMap_cons, SignPlace.expand_folded] at hexpanded
    have htoken : token.val = place.minus := (List.cons.inj hexpanded).1
    rw [← token.property, htoken] at hkind
    exact hkind rfl
  obtain ⟨first, behind, rfl, hmoved, hne, hbehind⟩ := exists_token h hhead
  have hfirst : first.kind = kind := by
    rw [← token.property, ← hmoved]
    rfl
  exact ⟨⟨first, hfirst⟩, behind, rfl, Subtype.ext hmoved, hne, hbehind⟩

theorem exists_operatorOf {texts : List String} {sign : OperatorOf texts}
    (h : place.Becomes source (sign.val :: rest))
    (hhead : ∀ first ∈ source.head?, first ≠ place.folded) :
    ∃ (first : OperatorOf texts) (behind : List Token), source = first.val :: behind ∧
      first.moved place.splitting.move = sign ∧ place.Becomes behind rest := by
  obtain ⟨first, behind, rfl, hmoved, -, hbehind⟩ := exists_token h hhead
  have hfirst : first.kind = .operator ∧ first.text ∈ texts := by
    have hsign := sign.property
    rw [← hmoved] at hsign
    exact hsign
  exact ⟨⟨first, hfirst⟩, behind, rfl, Subtype.ext hmoved, hbehind⟩

theorem exists_parameters {parameters : List (TokenOf .parameter)}
    (h : place.Becomes source (parameters.map (·.val) ++ rest)) :
    ∃ (first : List (TokenOf .parameter)) (behind : List Token),
      source = first.map (·.val) ++ behind ∧
        first.map (·.moved place.splitting.move) = parameters ∧ place.Becomes behind rest := by
  induction parameters generalizing source with
  | nil => exact ⟨[], source, rfl, rfl, h⟩
  | cons parameter parameters ih =>
    obtain ⟨first, others, rfl, rfl, -, hothers⟩ := exists_tokenOf (by decide) h
    obtain ⟨more, behind, rfl, rfl, hbehind⟩ := ih hothers
    exact ⟨first :: more, behind, rfl, rfl, hbehind⟩

/-- Whether the tree can be taken back: wherever its tokens have become what they are, it has
become so from a tree of the tokens that they were. -/
def Restores (place : SignPlace) {phrase : Phrase} (tree : ParseTree phrase) : Prop :=
  ∀ source rest, place.Becomes source (tree.tokens ++ rest) → place.MayStart phrase source →
    ∃ (old : ParseTree phrase) (behind : List Token), source = old.tokens ++ behind ∧
      old.substitute place.splitting = tree ∧ place.Becomes behind rest

/-- An operand that starts with a number is that number. -/
theorem eq_number {tree : ParseTree (.expression .operand)} (token : TokenOf .number)
    {behind : List Token} (h : tree.tokens ++ rest = token.val :: behind) :
    tree = number token ∧ rest = behind := by
  have hkind : tree.headKind = (number token).headKind := headKind_eq h
  cases tree with
  | chain loose => exact absurd rfl loose
  | number other =>
    obtain ⟨htoken, hrest⟩ := List.cons.inj h
    exact ⟨by rw [Subtype.ext htoken], hrest⟩
  | _ => cases hkind

/-- A sign in front of an operand is that of the number, or comes from such a sign. -/
theorem restores_negation {minus : OperatorOf ["-"]} {right : ParseTree (.expression .operand)}
    (hright : right.Restores place) : (negation minus right).Restores place := by
  rintro source rest h -
  by_cases hhead : source.head? = some place.folded
  · obtain ⟨behind, rfl⟩ := List.head?_eq_some_iff.mp hhead
    obtain ⟨hexpanded, hleads⟩ := h
    rw [List.flatMap_cons, SignPlace.expand_folded] at hexpanded
    obtain ⟨hminus, hnumber⟩ := List.cons.inj hexpanded
    obtain ⟨rfl, hrest⟩ := eq_number ⟨place.number, rfl⟩ hnumber
    obtain rfl : minus = place.sign := Subtype.ext hminus
    exact ⟨number place.splitting.token, behind, rfl, if_pos rfl, hrest, hleads.tail⟩
  · have hne : ∀ first ∈ source.head?, first ≠ place.folded := by
      rintro first hfirst rfl
      exact hhead hfirst
    obtain ⟨minus, source, rfl, rfl, h₁⟩ := exists_operatorOf h hne
    obtain ⟨right, behind, rfl, rfl, h₂⟩ := hright _ _ h₁ trivial
    exact ⟨negation minus right, behind, rfl, rfl, h₂⟩

theorem restores_ifThenElse {left right thenBranch elseBranch : ParseTree (.expression .sum)}
    {word : TokenOf .ifWord} {opening : TokenOf .leftParen} {comparison : TokenOf .comparison}
    {closing : TokenOf .rightParen} {thenWord : TokenOf .thenWord} {elseWord : TokenOf .elseWord}
    (hleft : left.Restores place) (hright : right.Restores place)
    (hthen : thenBranch.Restores place) (helse : elseBranch.Restores place) :
    (ifThenElse word opening left comparison right closing thenWord thenBranch elseWord
      elseBranch).Restores place := by
  rintro source rest h -
  simp only [tokens, List.cons_append, List.append_assoc] at h
  obtain ⟨word, source, rfl, rfl, -, h₁⟩ := exists_tokenOf (by decide) h
  obtain ⟨opening, source, rfl, rfl, -, h₂⟩ := exists_tokenOf (by decide) h₁
  obtain ⟨left, source, rfl, rfl, h₃⟩ := hleft _ _ h₂ trivial
  obtain ⟨comparison, source, rfl, rfl, -, h₄⟩ := exists_tokenOf (by decide) h₃
  obtain ⟨right, source, rfl, rfl, h₅⟩ := hright _ _ h₄ trivial
  obtain ⟨closing, source, rfl, rfl, -, h₆⟩ := exists_tokenOf (by decide) h₅
  obtain ⟨thenWord, source, rfl, rfl, -, h₇⟩ := exists_tokenOf (by decide) h₆
  obtain ⟨thenBranch, source, rfl, rfl, h₈⟩ := hthen _ _ h₇ trivial
  obtain ⟨elseWord, source, rfl, rfl, -, h₉⟩ := exists_tokenOf (by decide) h₈
  obtain ⟨elseBranch, behind, rfl, rfl, h₁₀⟩ := helse _ _ h₉ trivial
  exact ⟨ifThenElse word opening left comparison right closing thenWord thenBranch elseWord
    elseBranch, behind, by simp [tokens], rfl, h₁₀⟩

theorem restores {phrase : Phrase} (tree : ParseTree phrase) : tree.Restores place := by
  induction tree with
  | chain loose first more hfirst hmore =>
    rintro source rest h -
    rw [tokens, List.append_assoc] at h
    obtain ⟨first, source, rfl, rfl, h₁⟩ := hfirst _ _ h trivial
    obtain ⟨more, behind, rfl, rfl, h₂⟩ := hmore _ _ h₁ (h.leads.head first.closes)
    exact ⟨chain loose first more, behind, (List.append_assoc _ _ _).symm, rfl, h₂⟩
  | noOperation => exact fun source rest h _ ↦ ⟨noOperation, source, rfl, rfl, h⟩
  | operation sign right more hright hmore =>
    intro source rest h hhead
    simp only [tokens, List.cons_append, List.append_assoc] at h
    obtain ⟨sign, source, rfl, rfl, h₁⟩ := exists_operatorOf h hhead
    obtain ⟨right, source, rfl, rfl, h₂⟩ := hright _ _ h₁ trivial
    obtain ⟨more, behind, rfl, rfl, h₃⟩ := hmore _ _ h₂ (h₁.leads.head right.closes)
    exact ⟨operation sign right more, behind, by simp [tokens], rfl, h₃⟩
  | paren opening inner closing hinner =>
    rintro source rest h -
    simp only [tokens, List.cons_append, List.append_assoc, List.nil_append] at h
    obtain ⟨opening, source, rfl, rfl, -, h₁⟩ := exists_tokenOf (by decide) h
    obtain ⟨inner, source, rfl, rfl, h₂⟩ := hinner _ _ h₁ trivial
    obtain ⟨closing, behind, rfl, rfl, -, h₃⟩ := exists_tokenOf (by decide) h₂
    exact ⟨paren opening inner closing, behind, by simp [tokens], rfl, h₃⟩
  | negation minus right hright => exact restores_negation hright
  | number token =>
    rintro source rest h -
    obtain ⟨token, behind, rfl, rfl, hne, h₁⟩ := exists_tokenOf (by decide) h
    exact ⟨number token, behind, rfl, if_neg hne, h₁⟩
  | string token =>
    rintro source rest h -
    obtain ⟨token, behind, rfl, rfl, -, h₁⟩ := exists_tokenOf (by decide) h
    exact ⟨string token, behind, rfl, rfl, h₁⟩
  | access name =>
    rintro source rest h -
    obtain ⟨name, behind, rfl, rfl, -, h₁⟩ := exists_tokenOf (by decide) h
    exact ⟨access name, behind, rfl, rfl, h₁⟩
  | call name opening args closing hargs =>
    rintro source rest h -
    simp only [tokens, List.cons_append, List.append_assoc, List.nil_append] at h
    obtain ⟨name, source, rfl, rfl, -, h₁⟩ := exists_tokenOf (by decide) h
    obtain ⟨opening, source, rfl, rfl, -, h₂⟩ := exists_tokenOf (by decide) h₁
    obtain ⟨args, source, rfl, rfl, h₃⟩ := hargs _ _ h₂ trivial
    obtain ⟨closing, behind, rfl, rfl, -, h₄⟩ := exists_tokenOf (by decide) h₃
    exact ⟨call name opening args closing, behind, by simp [tokens], rfl, h₄⟩
  | letIn word bound inWord body hbound hbody =>
    rintro source rest h -
    simp only [tokens, List.cons_append, List.append_assoc] at h
    obtain ⟨word, source, rfl, rfl, -, h₁⟩ := exists_tokenOf (by decide) h
    obtain ⟨bound, source, rfl, rfl, h₂⟩ := hbound _ _ h₁ trivial
    obtain ⟨inWord, source, rfl, rfl, -, h₃⟩ := exists_tokenOf (by decide) h₂
    obtain ⟨body, behind, rfl, rfl, h₄⟩ := hbody _ _ h₃ trivial
    exact ⟨letIn word bound inWord body, behind, by simp [tokens], rfl, h₄⟩
  | letGroup word arrow opening bindings closing inWord body hbindings hbody =>
    rintro source rest h -
    simp only [tokens, List.cons_append, List.append_assoc] at h
    obtain ⟨word, source, rfl, rfl, -, h₁⟩ := exists_tokenOf (by decide) h
    obtain ⟨arrow, source, rfl, rfl, -, h₂⟩ := exists_tokenOf (by decide) h₁
    obtain ⟨opening, source, rfl, rfl, -, h₃⟩ := exists_tokenOf (by decide) h₂
    obtain ⟨bindings, source, rfl, rfl, h₄⟩ := hbindings _ _ h₃ trivial
    obtain ⟨closing, source, rfl, rfl, -, h₅⟩ := exists_tokenOf (by decide) h₄
    obtain ⟨inWord, source, rfl, rfl, -, h₆⟩ := exists_tokenOf (by decide) h₅
    obtain ⟨body, behind, rfl, rfl, h₇⟩ := hbody _ _ h₆ trivial
    exact ⟨letGroup word arrow opening bindings closing inWord body, behind, by simp [tokens], rfl,
      h₇⟩
  | ifThenElse word opening left comparison right closing thenWord thenBranch elseWord elseBranch
      hleft hright hthen helse => exact restores_ifThenElse hleft hright hthen helse
  | function word name parameters arrow body hbody =>
    rintro source rest h -
    simp only [tokens, List.cons_append, List.append_assoc] at h
    obtain ⟨word, source, rfl, rfl, -, h₁⟩ := exists_tokenOf (by decide) h
    obtain ⟨name, source, rfl, rfl, -, h₂⟩ := exists_tokenOf (by decide) h₁
    obtain ⟨parameters, source, rfl, rfl, h₃⟩ := exists_parameters h₂
    obtain ⟨arrow, source, rfl, rfl, -, h₄⟩ := exists_tokenOf (by decide) h₃
    obtain ⟨body, behind, rfl, rfl, h₅⟩ := hbody _ _ h₄ trivial
    exact ⟨function word name parameters arrow body, behind, by simp [tokens], rfl, h₅⟩
  | const word bound hbound =>
    rintro source rest h -
    obtain ⟨word, source, rfl, rfl, -, h₁⟩ := exists_tokenOf (by decide) h
    obtain ⟨bound, behind, rfl, rfl, h₂⟩ := hbound _ _ h₁ trivial
    exact ⟨const word bound, behind, rfl, rfl, h₂⟩
  | print word opening inner closing hinner =>
    rintro source rest h -
    simp only [tokens, List.cons_append, List.append_assoc, List.nil_append] at h
    obtain ⟨word, source, rfl, rfl, -, h₁⟩ := exists_tokenOf (by decide) h
    obtain ⟨opening, source, rfl, rfl, -, h₂⟩ := exists_tokenOf (by decide) h₁
    obtain ⟨inner, source, rfl, rfl, h₃⟩ := hinner _ _ h₂ trivial
    obtain ⟨closing, behind, rfl, rfl, -, h₄⟩ := exists_tokenOf (by decide) h₃
    exact ⟨print word opening inner closing, behind, by simp [tokens], rfl, h₄⟩
  | binding name equals value hvalue =>
    rintro source rest h -
    obtain ⟨name, source, rfl, rfl, -, h₁⟩ := exists_tokenOf (by decide) h
    have hleads : place.splitting.Leads ([name.val] ++ source) := h.leads
    obtain ⟨equals, source, rfl, rfl, h₂⟩ :=
      exists_operatorOf h₁ (hleads.head (endsOperand_singleton name rfl))
    obtain ⟨value, behind, rfl, rfl, h₃⟩ := hvalue _ _ h₂ trivial
    exact ⟨binding name equals value, behind, rfl, rfl, h₃⟩
  | noItems => exact fun source rest h _ ↦ ⟨noItems, source, rfl, rfl, h⟩
  | items first more hfirst hmore =>
    intro source rest h hitem
    rw [tokens, List.append_assoc] at h
    obtain ⟨first, source, rfl, rfl, h₁⟩ := hfirst _ _ h (hitem.mayStart _ _)
    obtain ⟨more, behind, rfl, rfl, h₂⟩ := hmore _ _ h₁ hitem
    exact ⟨items first more, behind, (List.append_assoc _ _ _).symm, rfl, h₂⟩
  | noMoreItems => exact fun source rest h _ ↦ ⟨noMoreItems, source, rfl, rfl, h⟩
  | moreItems comma first more hfirst hmore =>
    intro source rest h hitem
    simp only [tokens, List.cons_append, List.append_assoc] at h
    obtain ⟨comma, source, rfl, rfl, -, h₁⟩ := exists_tokenOf (by decide) h
    obtain ⟨first, source, rfl, rfl, h₂⟩ := hfirst _ _ h₁ (hitem.mayStart _ _)
    obtain ⟨more, behind, rfl, rfl, h₃⟩ := hmore _ _ h₂ hitem
    exact ⟨moreItems comma first more, behind, by simp [tokens], rfl, h₃⟩

end ParseTree

/-! ### Statements -/

namespace SignPlace

variable {place : SignPlace} {declarations : Declarations} {source found : List Token}

theorem eq_nil_of_becomes (h : place.Becomes source []) : source = [] := by
  cases source with
  | nil => rfl
  | cons first behind =>
    have hexpanded := h.expanded
    rw [List.flatMap_cons, Substitution.expand] at hexpanded
    split at hexpanded <;> cases hexpanded

/-- What becomes of a row of tokens has a derivation only if the row has one. -/
theorem exists_derives (hplain : place.splitting.Plain) (h : place.Becomes source found)
    (howns : place.splitting.Owns source) {tree : StatementTree}
    (hderives : tree.Derives declarations found) :
    ∃ old : StatementTree, old.Derives declarations source ∧
      old.substitute place.splitting = tree := by
  have htokens := hderives.tokens
  rw [h.expanded, StatementTree.takeWhile_expand] at htokens
  have hfront : place.Becomes (source.takeWhile (·.kind ≠ .eof))
      (tree.expr.tokens ++ tree.ending) :=
    ⟨htokens.symm, h.leads.within (List.takeWhile_prefix _).isInfix⟩
  obtain ⟨expr, behind, hold, hexpr, hbehind⟩ := tree.expr.restores _ _ hfront trivial
  obtain ⟨semicolon, hsemicolon, hending⟩ : ∃ semicolon : Option (TokenOf .semicolon),
      semicolon.map (·.moved place.splitting.move) = tree.semicolon ∧
        behind = StatementTree.ending ⟨expr, semicolon⟩ := by
    cases hnone : tree.semicolon with
    | none =>
      rw [StatementTree.ending, hnone] at hbehind
      exact ⟨none, rfl, eq_nil_of_becomes hbehind⟩
    | some semicolon =>
      rw [StatementTree.ending, hnone] at hbehind
      obtain ⟨first, others, rfl, rfl, -, hothers⟩ :=
        ParseTree.exists_tokenOf (by decide : TokenKind.semicolon ≠ .operator) hbehind
      obtain rfl := eq_nil_of_becomes hothers
      exact ⟨some first, rfl, rfl⟩
  have htree : StatementTree.substitute place.splitting ⟨expr, semicolon⟩ = tree := by
    rw [StatementTree.substitute, hexpr, hsemicolon]
  refine ⟨⟨expr, semicolon⟩, ?_, htree⟩
  rw [← StatementTree.derives_substitute hplain howns h.leads (hold.trans (by rw [hending])), htree,
    ← h.expanded]
  exact hderives

/-- What the tokens of a source become, from the position of the sign on. -/
theorem Splits.becomes {before : List Token} (h : place.Splits before source found)
    (hlast : ∀ token ∈ before.getLast?, token.kind.endsOperand = false)
    (hpairs : source.Pairwise fun first second ↦ first.pos.Before second.pos) :
    place.Becomes source found ∧ place.splitting.Owns source := by
  obtain ⟨after, rfl, rfl⟩ := h
  obtain ⟨hfrontPairs, hpairs, hearlier⟩ := List.pairwise_append.mp hpairs
  have hbefore : ∀ token ∈ before, token.pos.Before place.pos :=
    fun token htoken ↦ hearlier token htoken _ List.mem_cons_self
  obtain ⟨hafter, hbehindPairs⟩ : (∀ token ∈ after, place.pos.Before token.pos) ∧ _ :=
    List.pairwise_cons.mp hpairs
  have hnumber {token : Token} (h : token.pos ≠ place.pos) : token ≠ place.folded :=
    fun hfolded ↦ h (congrArg Token.pos hfolded)
  have hfront : before.flatMap place.splitting.expand = before := by
    refine (List.flatMap_congr fun token htoken ↦ ?_).trans (List.flatMap_singleton' before)
    rw [Substitution.expand_of_ne (hnumber (hbefore token htoken).ne)]
    exact congrArg (fun pos ↦ [{ token with pos := pos }])
      (Pos.spaced_of_before (hbefore token htoken))
  have hbehind : after.flatMap place.splitting.expand =
      after.map (Token.moved (Pos.spaced place.pos)) := by
    rw [List.map_eq_flatMap]
    exact List.flatMap_congr fun token htoken ↦
      Substitution.expand_of_ne (hnumber (hafter token htoken).ne.symm)
  refine ⟨⟨?_, ?_⟩, ?_⟩
  · rw [List.flatMap_append, List.flatMap_cons, hfront, hbehind, expand_folded]
    rfl
  · have hapart {tokens : List Token}
        (hpairs : tokens.Pairwise fun first second ↦ first.pos.Before second.pos)
        (hne : ∀ token ∈ tokens, token ≠ place.folded) : place.splitting.Leads tokens :=
      (hpairs.imp_of_mem fun _ hsecond _ hfolded ↦ absurd hfolded (hne _ hsecond)).isChain
    have hfirst := hapart hfrontPairs fun token htoken ↦ hnumber (hbefore token htoken).ne
    have hsecond := hapart hbehindPairs fun token htoken ↦ hnumber (hafter token htoken).ne.symm
    refine List.isChain_append.mpr ⟨hfirst, List.isChain_cons.mpr ⟨?_, hsecond⟩, ?_⟩
    · exact fun token htoken hfolded ↦
        absurd hfolded (hnumber (hafter token (List.mem_of_mem_head? htoken)).ne.symm)
    · exact fun token htoken _ _ _ ↦ hlast token htoken
  · refine Substitution.owns_append.mpr ⟨?_, Substitution.owns_cons.mpr ⟨fun _ ↦ rfl, ?_⟩⟩
    · exact fun token htoken hpos ↦ absurd hpos (hbefore token htoken).ne
    · exact fun token htoken hpos ↦ absurd hpos.symm (hafter token htoken).ne

/-- The number with the sign, in its own place. -/
def itself (place : SignPlace) (value : Float) : Replacement where
  place := place.pos
  new := .literal place.pos (.number value)
  move := id

/-- The number subtracted from zero in the place of the number with the sign, and all that follows
on the line one column further. -/
def subtraction (place : SignPlace) (size : Float) : Replacement where
  place := place.pos
  new := .binary place.pos .sub (.literal place.pos (.number 0.0))
    (.literal place.number.pos (.number size))
  move := Pos.spaced place.pos

/-- Whether both rows of tokens are read as the same statement under any declarations, but for
the literals at the sign. In the first statement these are the number with the sign, in the second
one the number is subtracted from zero. Reading the second row takes one more unit of nesting at
most. -/
structure ReadAlike (place : SignPlace) (value size : Float) (source found : List Token) :
    Prop where
  literal : ∀ declarations limit statement,
    Statement.ofTokens limit declarations source = .ok statement →
      statement.replace (place.itself value) = statement
  split : ∀ declarations limit statement,
    Statement.ofTokens limit declarations source = .ok statement →
      Statement.ofTokens (limit + 1) declarations found =
        .ok (statement.replace (place.subtraction size))
  whole : ∀ declarations limit statement,
    Statement.ofTokens limit declarations found = .ok statement →
      ∃ old, Statement.ofTokens limit declarations source = .ok old ∧
        statement = old.replace (place.subtraction size)

theorem replacement_splitting {size : Float}
    (hsize : Number.read? place.number.text = some size) (builtins : NameMap Builtin) :
    place.splitting.replacement builtins = place.subtraction size := by
  rw [Substitution.replacement, splitting, subtraction, ParseTree.value, ParseTree.value, hsize]
  rfl

theorem replacement_self {value : Float}
    (hvalue : Number.read? place.folded.text = some value) (builtins : NameMap Builtin) :
    (Substitution.mk place.splitting.token (.number place.splitting.token) id).replacement
      builtins = place.itself value := by
  rw [Substitution.replacement, splitting, itself, ParseTree.value, hvalue]
  rfl

theorem readAlike {value size : Float} (hplain : place.splitting.Plain)
    (hvalue : Number.read? place.folded.text = some value)
    (hsize : Number.read? place.number.text = some size) (h : place.Becomes source found)
    (howns : place.splitting.Owns source) : place.ReadAlike value size source found := by
  have hexpr {declarations : Declarations} {tree : StatementTree}
      (hderives : tree.Derives declarations source) : place.splitting.Owns tree.expr.tokens :=
    fun token htoken ↦ howns token (hderives.subset htoken)
  have hreplaced {declarations : Declarations} {tree : StatementTree}
      (hderives : tree.Derives declarations source) :
      (tree.substitute place.splitting).statement declarations.builtins =
        (tree.statement declarations.builtins).replace (place.subtraction size) := by
    rw [← replacement_splitting hsize declarations.builtins]
    exact StatementTree.statement_substitute rfl tree (hexpr hderives)
  constructor
  · intro declarations limit statement hread
    obtain ⟨tree, hderives, rfl⟩ := Statement.exists_derives_of_ofTokens hread
    have hself : (tree.substitute ⟨place.splitting.token, .number place.splitting.token,
        id⟩).statement declarations.builtins = _ :=
      StatementTree.statement_substitute rfl tree (hexpr hderives)
    rw [StatementTree.substitute_self, replacement_self hvalue] at hself
    exact hself.symm
  · intro declarations limit statement hread
    obtain ⟨tree, hderives, hnesting, rfl⟩ := Statement.exists_nested_of_ofTokens hread
    rw [← hreplaced hderives, h.expanded]
    refine Statement.ofTokens_of_nesting
      ((StatementTree.derives_substitute hplain howns h.leads hderives.tokens).mpr hderives) ?_
    have hdeeper : (tree.expr.substitute place.splitting).nesting + 1 ≤ tree.expr.nesting + 2 :=
      tree.expr.nesting_substitute.2
    exact Nat.le_of_succ_le_succ (hdeeper.trans (Nat.add_le_add_right hnesting 2))
  · intro declarations limit statement hread
    obtain ⟨tree, hderives, hnesting, rfl⟩ := Statement.exists_nested_of_ofTokens hread
    obtain ⟨old, hold, rfl⟩ := exists_derives hplain h howns hderives
    refine ⟨_, Statement.ofTokens_of_nesting hold ?_, hreplaced hold⟩
    exact old.expr.nesting_substitute.1.trans hnesting

end SignPlace

/-- Every number with a sign that is found in a source is read at a place where the sign is folded
into it. With a blank behind the sign, the source has the same tokens, up to positions behind the
blank, but for the sign and the number by themselves, and is refused if and only if it was. Its
statements are the same under all declarations, and are refused under the same, but for the number
with the sign: where it stood, the number is subtracted from zero. -/
theorem folding_agrees (source : String) :
    (∀ limit found, tokenize limit source = .ok found → ∀ token ∈ found, token.kind = .number →
      token.text.toList.head? = some '-' →
        ∃ place : SignPlace, place.source = source ∧ place.Folded ∧ token = place.folded) ∧
    ∀ place : SignPlace, place.source = source → place.Folded → ∃ before value size,
      Number.read? place.folded.text = some value ∧ Number.read? place.number.text = some size ∧
        ∀ limit, Alike
          (fun found found' ↦ place.Splits before found found' ∧
            place.ReadAlike value size found found')
          (tokenize limit source) (tokenize limit place.spaced) := by
  refine ⟨fun limit found hfound token htoken hkind hsign ↦
    exists_folded hfound htoken hkind hsign, ?_⟩
  rintro place rfl hfolded
  obtain ⟨before, hlast, halike⟩ := hfolded.tokenize_alike
  obtain ⟨hvalue, hsize⟩ := SignPlace.isSome_read? hfolded.numeral
  obtain ⟨value, hvalue⟩ := Option.isSome_iff_exists.mp hvalue
  obtain ⟨size, hsize⟩ := Option.isSome_iff_exists.mp hsize
  refine ⟨before, value, size, hvalue, hsize, fun limit ↦ ?_⟩
  cases hfound : tokenize limit place.source with
  | error fault =>
    obtain ⟨fault', hfault⟩ := (hfound ▸ halike limit).of_error
    rw [hfault]
    exact .error _ _
  | ok found =>
    obtain ⟨found', hfound', hsplits⟩ := (hfound ▸ halike limit).of_ok
    obtain ⟨hbecomes, howns⟩ := hsplits.becomes hlast (pairwise_before hfound)
    rw [hfound']
    exact .ok ⟨hsplits, SignPlace.readAlike (SignPlace.plain_splitting hfolded.numeral) hvalue
      hsize hbecomes howns⟩

/-- A factor with a sign: the sign belongs to the base of the power either way. -/
theorem folding_agrees_power : ∃ place : SignPlace, place.spaced = "2*- 3^2" ∧
    ∃ before value size, Number.read? place.folded.text = some value ∧
      Number.read? place.number.text = some size ∧
        ∀ limit, Alike
          (fun found found' ↦ place.Splits before found found' ∧
            place.ReadAlike value size found found')
          (tokenize limit "2*-3^2") (tokenize limit "2*- 3^2") := by
  have hfound : tokenize 0 "2*-3^2" = .ok [⟨.number, "2", ⟨1, 1⟩⟩, ⟨.operator, "*", ⟨1, 2⟩⟩,
      ⟨.number, "-3", ⟨1, 3⟩⟩, ⟨.operator, "^", ⟨1, 5⟩⟩, ⟨.number, "2", ⟨1, 6⟩⟩,
      ⟨.eof, "", ⟨1, 7⟩⟩] := by
    decide +kernel
  obtain ⟨place, hsource, hfolded, -⟩ :=
    (folding_agrees "2*-3^2").1 0 _ hfound ⟨.number, "-3", ⟨1, 3⟩⟩ (by simp) rfl (by decide)
  -- there is but one sign in the source
  have hspaced : place.spaced = "2*- 3^2" := by
    obtain ⟨front, behind⟩ := place
    have hchars : front ++ '-' :: behind = ['2', '*', '-', '3', '^', '2'] :=
      String.ofList_injective hsource
    rcases front with _ | ⟨a, _ | ⟨b, _ | ⟨c, front⟩⟩⟩
    · cases hchars
    · cases hchars
    · cases hchars
      rfl
    · have hlast : front ++ '-' :: behind = ['3', '^', '2'] :=
        (List.cons.inj (List.cons.inj (List.cons.inj hchars).2).2).2
      have hsign : '-' ∈ front ++ '-' :: behind := by simp
      rw [hlast] at hsign
      exact absurd hsign (by decide)
  have hagrees := (folding_agrees "2*-3^2").2 place hsource hfolded
  rw [hspaced] at hagrees
  exact ⟨place, hspaced, hagrees⟩

end Reckoner
