import Reckoner.Proofs.Grammar.Readable
import Reckoner.Proofs.Grammar.StatementTree
import Reckoner.Proofs.Token.Tiling

/-!
Where the nodes of a statement stand. Every node that reading makes has the position of a token,
also those that are not written out, such as the zero that a minus sign takes something from. So
all nodes of a statement, and of what it declares, stand where tokens of it stand, and a token that
is scanned from a text has a line and a column.
-/

set_option autoImplicit false
set_option relaxedAutoImplicit false

namespace Reckoner

/-- Whether all nodes of the expression have such positions. -/
def Expr.StandsAt (places : Pos → Prop) (expr : Expr) : Prop :=
  expr.Everywhere fun node ↦ places node.pos

/-- Whether all signs of operations and all nodes of expressions have such positions. -/
def Phrase.StandsAt (places : Pos → Prop) : (phrase : Phrase) → phrase.Value → Prop
  | expression _, expr => expr.StandsAt places
  | operations _, row => ∀ operation ∈ row, places operation.1.pos ∧ operation.2.StandsAt places
  | binding, bound => bound.2.StandsAt places
  | items item, values => ∀ value ∈ values, item.StandsAt places value
  | moreItems item, values => ∀ value ∈ values, item.StandsAt places value

namespace Expr

variable {places : Pos → Prop} {pos : Pos}

theorem standsAt_of_children {expr : Expr} (hpos : places expr.pos)
    (h : ∀ child ∈ expr.children, child.StandsAt places) : expr.StandsAt places :=
  everywhere_iff.mpr ⟨hpos, h⟩

theorem standsAt_leaf {expr : Expr} (hpos : places expr.pos) (hleaf : expr.children = []) :
    expr.StandsAt places :=
  standsAt_of_children hpos (hleaf ▸ List.forall_mem_nil _)

theorem standsAt_binary {left right : Expr} (op : Operator) (hpos : places pos)
    (hleft : left.StandsAt places) (hright : right.StandsAt places) :
    (binary pos op left right).StandsAt places :=
  everywhere_binary_iff.mpr ⟨hpos, hleft, hright⟩

theorem standsAt_operate {left : Expr} {operations : List (Token × Expr)}
    (hleft : left.StandsAt places)
    (h : ∀ operation ∈ operations, places operation.1.pos ∧ operation.2.StandsAt places) :
    (left.operate operations).StandsAt places := by
  induction operations generalizing left with
  | nil => exact hleft
  | cons operation operations ih =>
    obtain ⟨⟨hpos, hright⟩, hmore⟩ := List.forall_mem_cons.mp h
    exact ih (standsAt_binary _ hpos hleft hright) hmore

end Expr

namespace ParseTree

variable {places : Pos → Prop} {builtins : NameMap Builtin}

/-- What a tree stands for has positions of its tokens only, and so has what it declares. -/
theorem standsAt {phrase : Phrase} (tree : ParseTree phrase)
    (h : ∀ token ∈ tree.tokens, places token.pos) :
    phrase.StandsAt places (tree.value builtins) ∧
      ∀ declaration ∈ tree.declared builtins, declaration.expr.StandsAt places := by
  induction tree with
  | chain loose first more hfirst hmore =>
    obtain ⟨hfirstTokens, hmoreTokens⟩ := List.forall_mem_append.mp h
    obtain ⟨hvalue, hdeclared⟩ := hfirst hfirstTokens
    obtain ⟨hvalues, hmoreDeclared⟩ := hmore hmoreTokens
    exact ⟨Expr.standsAt_operate hvalue hvalues,
      List.forall_mem_append.mpr ⟨hdeclared, hmoreDeclared⟩⟩
  | noOperation => exact ⟨List.forall_mem_nil _, List.forall_mem_nil _⟩
  | operation sign right more hright hmore =>
    simp only [tokens, List.forall_mem_cons, List.forall_mem_append] at h
    obtain ⟨hsign, hrightTokens, hmoreTokens⟩ := h
    obtain ⟨hvalue, hdeclared⟩ := hright hrightTokens
    obtain ⟨hvalues, hmoreDeclared⟩ := hmore hmoreTokens
    exact ⟨List.forall_mem_cons.mpr ⟨⟨hsign, hvalue⟩, hvalues⟩,
      List.forall_mem_append.mpr ⟨hdeclared, hmoreDeclared⟩⟩
  | paren opening inner closing hinner =>
    simp only [tokens, List.forall_mem_cons, List.forall_mem_append] at h
    exact hinner h.2.1
  | negation minus right hright =>
    obtain ⟨hminus, hrightTokens⟩ := List.forall_mem_cons.mp h
    obtain ⟨hvalue, hdeclared⟩ := hright hrightTokens
    exact ⟨Expr.standsAt_binary _ hminus (Expr.standsAt_leaf hminus rfl) hvalue, hdeclared⟩
  | number token => exact ⟨Expr.standsAt_leaf (h _ List.mem_cons_self) rfl, List.forall_mem_nil _⟩
  | string token => exact ⟨Expr.standsAt_leaf (h _ List.mem_cons_self) rfl, List.forall_mem_nil _⟩
  | access name => exact ⟨Expr.standsAt_leaf (h _ List.mem_cons_self) rfl, List.forall_mem_nil _⟩
  | call name opening args closing hargs =>
    simp only [tokens, List.forall_mem_cons, List.forall_mem_append] at h
    obtain ⟨hname, -, hargsTokens, -⟩ := h
    obtain ⟨hvalues, hdeclared⟩ := hargs hargsTokens
    refine ⟨?_, hdeclared⟩
    rw [value]
    split
    · exact Expr.standsAt_of_children hname hvalues
    · exact Expr.standsAt_of_children hname hvalues
  | letIn word bound inWord body hbound hbody =>
    simp only [tokens, List.forall_mem_cons, List.forall_mem_append] at h
    obtain ⟨hword, hboundTokens, -, hbodyTokens⟩ := h
    obtain ⟨hvalue, hdeclared⟩ := hbound hboundTokens
    obtain ⟨hinner, hbodyDeclared⟩ := hbody hbodyTokens
    exact ⟨Expr.everywhere_letIn_iff.mpr ⟨hword, hvalue, hinner⟩,
      List.forall_mem_append.mpr ⟨hdeclared, hbodyDeclared⟩⟩
  | letGroup word arrow opening bindings closing inWord body hbindings hbody =>
    simp only [tokens, List.forall_mem_cons, List.forall_mem_append] at h
    obtain ⟨hword, -, -, hbindingsTokens, -, -, hbodyTokens⟩ := h
    obtain ⟨hvalues, hdeclared⟩ := hbindings hbindingsTokens
    obtain ⟨hinner, hbodyDeclared⟩ := hbody hbodyTokens
    exact ⟨Expr.everywhere_letGroup_iff.mpr ⟨hword, hvalues, hinner⟩,
      List.forall_mem_append.mpr ⟨hdeclared, hbodyDeclared⟩⟩
  | ifThenElse word opening left comparison right closing thenWord thenBranch elseWord elseBranch
      hleft hright hthen helse =>
    simp only [tokens, List.forall_mem_cons, List.forall_mem_append] at h
    obtain ⟨hword, -, hleftTokens, hcomparison, hrightTokens, -, -, hthenTokens, -, helseTokens⟩ :=
      h
    obtain ⟨hleftValue, hleftDeclared⟩ := hleft hleftTokens
    obtain ⟨hrightValue, hrightDeclared⟩ := hright hrightTokens
    obtain ⟨hthenValue, hthenDeclared⟩ := hthen hthenTokens
    obtain ⟨helseValue, helseDeclared⟩ := helse helseTokens
    exact ⟨Expr.everywhere_ifThenElse_iff.mpr
        ⟨hword, Expr.standsAt_binary _ hcomparison hleftValue hrightValue, hthenValue, helseValue⟩,
      List.forall_mem_append.mpr ⟨hleftDeclared, List.forall_mem_append.mpr ⟨hrightDeclared,
        List.forall_mem_append.mpr ⟨hthenDeclared, helseDeclared⟩⟩⟩⟩
  | function word name parameters arrow body hbody =>
    simp only [tokens, List.forall_mem_cons, List.forall_mem_append] at h
    obtain ⟨hword, -, -, -, hbodyTokens⟩ := h
    obtain ⟨hvalue, hdeclared⟩ := hbody hbodyTokens
    exact ⟨Expr.standsAt_leaf hword rfl,
      List.forall_mem_append.mpr ⟨hdeclared, List.forall_mem_singleton.mpr hvalue⟩⟩
  | const word bound hbound =>
    obtain ⟨hword, hboundTokens⟩ := List.forall_mem_cons.mp h
    obtain ⟨hvalue, hdeclared⟩ := hbound hboundTokens
    exact ⟨Expr.standsAt_leaf hword rfl,
      List.forall_mem_append.mpr ⟨hdeclared, List.forall_mem_singleton.mpr hvalue⟩⟩
  | print word opening inner closing hinner =>
    simp only [tokens, List.forall_mem_cons, List.forall_mem_append] at h
    obtain ⟨hword, -, hinnerTokens, -⟩ := h
    exact ⟨Expr.standsAt_leaf hword rfl, (hinner hinnerTokens).2⟩
  | binding name equals value hvalue =>
    simp only [tokens, List.forall_mem_cons] at h
    exact hvalue h.2.2
  | noItems => exact ⟨List.forall_mem_nil _, List.forall_mem_nil _⟩
  | items first more hfirst hmore =>
    obtain ⟨hfirstTokens, hmoreTokens⟩ := List.forall_mem_append.mp h
    obtain ⟨hvalue, hdeclared⟩ := hfirst hfirstTokens
    obtain ⟨hvalues, hmoreDeclared⟩ := hmore hmoreTokens
    exact ⟨List.forall_mem_cons.mpr ⟨hvalue, hvalues⟩,
      List.forall_mem_append.mpr ⟨hdeclared, hmoreDeclared⟩⟩
  | noMoreItems => exact ⟨List.forall_mem_nil _, List.forall_mem_nil _⟩
  | moreItems comma first more hfirst hmore =>
    simp only [tokens, List.forall_mem_cons, List.forall_mem_append] at h
    obtain ⟨-, hfirstTokens, hmoreTokens⟩ := h
    obtain ⟨hvalue, hdeclared⟩ := hfirst hfirstTokens
    obtain ⟨hvalues, hmoreDeclared⟩ := hmore hmoreTokens
    exact ⟨List.forall_mem_cons.mpr ⟨hvalue, hvalues⟩,
      List.forall_mem_append.mpr ⟨hdeclared, hmoreDeclared⟩⟩

end ParseTree

/-- A statement has positions of its tokens only, and so has what it declares. -/
theorem Statement.standsAt_of_ofTokens {limit : Nat} {declarations : Declarations}
    {tokens : List Token} {statement : Statement}
    (h : ofTokens limit declarations tokens = .ok statement) :
    statement.expr.StandsAt (fun pos ↦ ∃ token ∈ tokens, token.pos = pos) ∧
      ∀ declaration ∈ statement.declared,
        declaration.expr.StandsAt fun pos ↦ ∃ token ∈ tokens, token.pos = pos := by
  obtain ⟨tree, hderives, rfl⟩ := exists_derives_of_ofTokens h
  exact tree.expr.standsAt fun token htoken ↦ ⟨token, hderives.subset htoken, rfl⟩

/-- Every token of a text has a line and a column. -/
theorem pos_of_tokenize {limit : Nat} {source : String} {found : List Token}
    (h : tokenize limit source = .ok found) :
    ∀ token ∈ found, 1 ≤ token.pos.line ∧ 1 ≤ token.pos.column := by
  have hbehind (text : List Char) : 1 ≤ (Pos.behind text).line ∧ 1 ≤ (Pos.behind text).column := by
    dsimp only [Pos.behind]
    omega
  have htiles : Tiles none (Cursor.ofText source) found := Scan.tiles_tokens h (by decide)
  obtain ⟨spans, rfl, htiling⟩ := htiles source.toList 0 (Cursor.at_ofText source)
  refine List.forall_mem_append.mpr ⟨List.forall_mem_map.mpr fun span hspan ↦ ?_,
    List.forall_mem_singleton.mpr (hbehind _)⟩
  rw [(htiling.exact span hspan).pos]
  exact hbehind _

end Reckoner
