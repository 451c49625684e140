import Reckoner.Proofs.Expr.Printing
import Reckoner.Proofs.Grammar.StatementTree

/-!
Derivations of printed expressions. Tokens spelled as the text of an expression derive it again:
every operation stands between parentheses of its own, and where a form is open at its end the
text goes on with nothing that would carry it on.
-/

set_option autoImplicit false
set_option relaxedAutoImplicit false

namespace Reckoner

/-- The level whose operators the operator is one of. -/
def Operator.level : Operator → Level
  | add | sub => .sum
  | mul | div => .product
  | pow => .power
  | _ => .operand

namespace Operator

theorem text_mem_signs {op : Operator} (h : op.calculates = true) :
    op.text ∈ op.level.signs ∧ op.level ≠ .operand ∧ ofText op.text = op ∧
      op.kind = .operator := by
  cases op with
  | unknown text => cases h
  | add | sub | mul | div | pow => exact ⟨by decide, by decide, rfl, rfl⟩
  | lt | gt | le | ge | eq | ne => cases h

theorem kind_of_compares {op : Operator} (h : op.compares = true) :
    ofText op.text = op ∧ op.kind = .comparison := by
  cases op with
  | unknown text => cases h
  | add | sub | mul | div | pow => cases h
  | lt | gt | le | ge | eq | ne => exact ⟨rfl, rfl⟩

end Operator

theorem Level.endsBefore_of_kind {level : Level} {token : Token} {rest : List Token}
    (h : token.kind ≠ .operator) : level.EndsBefore (token :: rest) := by
  intro other hother
  cases hother
  exact fun hkind ↦ absurd hkind h

namespace ParseTree

variable {scope : Scope} {builtins : NameMap Builtin}

/-! ### Operands at looser levels -/

/-- An expression of the next tighter level as one of the level, without operations. -/
def loosen : (level : Level) → ParseTree (.expression level.tighter) →
    ParseTree (.expression level)
  | .sum, tree => chain (by decide) tree noOperation
  | .product, tree => chain (by decide) tree noOperation
  | .power, tree => chain (by decide) tree noOperation
  | .operand, tree => tree

/-- An operand as an expression of the level. -/
def raise : (level : Level) → ParseTree (.expression .operand) → ParseTree (.expression level)
  | .sum, tree => loosen .sum (loosen .product (loosen .power tree))
  | .product, tree => loosen .product (loosen .power tree)
  | .power, tree => loosen .power tree
  | .operand, tree => tree

/-- An expression of a level as one of the loosest level. -/
def toSum : (level : Level) → ParseTree (.expression level) → ParseTree (.expression .sum)
  | .sum, tree => tree
  | .product, tree => loosen .sum tree
  | .power, tree => loosen .sum (loosen .product tree)
  | .operand, tree => raise .sum tree

/-- Two trees that differ in no more than the levels they pass through. -/
structure Alike {level level' : Level} (tree : ParseTree (.expression level))
    (other : ParseTree (.expression level')) : Prop where
  tokens : tree.tokens = other.tokens
  value : ∀ builtins, tree.value builtins = other.value builtins
  declared : ∀ builtins, tree.declared builtins = other.declared builtins
  valid : ∀ scope before, tree.Valid scope before ↔ other.Valid scope before
  greedy : ∀ rest, tree.Greedy rest ↔ other.Greedy rest

theorem Alike.refl {level : Level} (tree : ParseTree (.expression level)) : tree.Alike tree :=
  ⟨rfl, fun _ ↦ rfl, fun _ ↦ rfl, fun _ _ ↦ .rfl, fun _ ↦ .rfl⟩

theorem Alike.trans {level level' level'' : Level} {tree : ParseTree (.expression level)}
    {other : ParseTree (.expression level')} {third : ParseTree (.expression level'')}
    (h : tree.Alike other) (h' : other.Alike third) : tree.Alike third :=
  ⟨h.tokens.trans h'.tokens, fun _ ↦ (h.value _).trans (h'.value _),
    fun _ ↦ (h.declared _).trans (h'.declared _), fun _ _ ↦ (h.valid _ _).trans (h'.valid _ _),
    fun _ ↦ (h.greedy _).trans (h'.greedy _)⟩

theorem alike_loosen (level : Level) (tree : ParseTree (.expression level.tighter)) :
    (loosen level tree).Alike tree := by
  have hchain {level : Level} (loose : level ≠ .operand)
      (tree : ParseTree (.expression level.tighter)) : (chain loose tree noOperation).Alike tree :=
    ⟨List.append_nil _, fun _ ↦ rfl, fun _ ↦ List.append_nil _, fun _ _ ↦ and_iff_left trivial,
      fun _ ↦ and_iff_left trivial⟩
  cases level with
  | sum => exact hchain _ tree
  | product => exact hchain _ tree
  | power => exact hchain _ tree
  | operand => exact .refl tree

theorem alike_raise (level : Level) (tree : ParseTree (.expression .operand)) :
    (raise level tree).Alike tree := by
  have hpower := alike_loosen .power tree
  have hproduct := (alike_loosen .product (loosen .power tree)).trans hpower
  cases level with
  | sum => exact (alike_loosen .sum _).trans hproduct
  | product => exact hproduct
  | power => exact hpower
  | operand => exact .refl tree

theorem alike_toSum (level : Level) (tree : ParseTree (.expression level)) :
    (toSum level tree).Alike tree := by
  cases level with
  | sum => exact .refl tree
  | product => exact alike_loosen .sum tree
  | power => exact (alike_loosen .sum _).trans (alike_loosen .product tree)
  | operand => exact alike_raise .sum tree

/-! ### Trees without declarations -/

/-- Whether the tree declares nothing, is in order whatever has been declared before it, and is
greedy before anything that carries no expression on. -/
structure Settled {phrase : Phrase} (tree : ParseTree phrase) (scope : Scope) : Prop where
  declared : tree.declared scope.declarations.builtins = []
  valid : ∀ before, tree.Valid scope before
  greedy : ∀ rest, Level.sum.EndsBefore rest → tree.Greedy rest

theorem Settled.alike {level level' : Level} {tree : ParseTree (.expression level)}
    {other : ParseTree (.expression level')} (h : tree.Settled scope) (halike : other.Alike tree) :
    other.Settled scope :=
  ⟨(halike.declared _).trans h.declared,
    fun before ↦ (halike.valid scope before).mpr (h.valid before),
    fun rest hends ↦ (halike.greedy rest).mpr (h.greedy rest hends)⟩

/-- Two operands with an operator between them, where the left one stops before the operator. -/
theorem exists_operation {op : Operator} (hop : op.calculates = true) (sign : TokenOf op.kind)
    (hsign : sign.val.text = op.text) {left right : ParseTree (.expression .operand)}
    (hleft : left.Settled scope) (hright : right.Settled scope)
    (hgreedy : ∀ rest, left.Greedy rest) :
    ∃ tree : ParseTree (.expression .sum), tree.tokens = left.tokens ++ sign.val :: right.tokens ∧
      tree.Settled scope ∧ ∀ builtins, tree.value builtins =
        .binary sign.val.pos op (left.value builtins) (right.value builtins) := by
  obtain ⟨hmem, hloose, hofText, hkind⟩ := Operator.text_mem_signs hop
  have hoperator : sign.val.kind = .operator ∧ sign.val.text ∈ op.level.signs := by
    rw [sign.property, hsign]
    exact ⟨hkind, hmem⟩
  have hleftAlike := alike_raise op.level.tighter left
  have hrightAlike := alike_raise op.level.tighter right
  have hleft := hleft.alike hleftAlike
  have hright := hright.alike hrightAlike
  let tree := chain hloose (raise _ left) (operation ⟨sign.val, hoperator⟩ (raise _ right)
    noOperation)
  have halike := alike_toSum op.level tree
  have hsettled : tree.Settled scope := by
    refine ⟨?_, fun before ↦ ?_, fun rest hends ↦ ?_⟩
    · change _ ++ (_ ++ []) = []
      rw [hleft.declared, hright.declared]
      rfl
    · exact ⟨hleft.valid before, hright.valid _, trivial⟩
    · exact ⟨(hleftAlike.greedy _).mpr (hgreedy _), hright.greedy rest hends, trivial⟩
  refine ⟨toSum op.level tree, ?_, hsettled.alike halike, fun builtins ↦ ?_⟩
  · rw [halike.tokens, ← hleftAlike.tokens, ← hrightAlike.tokens]
    change _ ++ _ :: (_ ++ []) = _
    rw [List.append_nil]
  · rw [halike.value, ← hleftAlike.value, ← hrightAlike.value]
    change Expr.binary _ (.ofText sign.val.text) _ _ = _
    rw [hsign, hofText]

end ParseTree

/-- The first of tokens that are spelled in the given way. -/
theorem Token.exists_of_spelled {tokens : List Token} {kind : TokenKind} {text : String}
    {spelled : List (TokenKind × String)}
    (h : tokens.map Token.spelling = (kind, text) :: spelled) :
    ∃ (token : TokenOf kind) (behind : List Token), tokens = token.val :: behind ∧
      token.val.text = text ∧ behind.map Token.spelling = spelled := by
  obtain ⟨token, behind, rfl, htoken, hbehind⟩ := List.map_eq_cons_iff.mp h
  obtain ⟨hkind, htext⟩ := Prod.mk.inj htoken
  exact ⟨⟨token, hkind⟩, behind, rfl, htext, hbehind⟩

/-- Whether all tokens that are spelled in the given way form the phrase, by a settled tree with
the property. -/
def Rereads (scope : Scope) (phrase : Phrase) (spelled : List (TokenKind × String))
    (property : ParseTree phrase → Prop) : Prop :=
  ∀ tokens, tokens.map Token.spelling = spelled →
    ∃ tree : ParseTree phrase, tree.tokens = tokens ∧ tree.Settled scope ∧ property tree

/-- The first of tokens that are spelled as the phrase is and go on. -/
theorem Rereads.split {scope : Scope} {phrase : Phrase} {spelled more : List (TokenKind × String)}
    {property : ParseTree phrase → Prop} (h : Rereads scope phrase spelled property)
    {tokens : List Token} (htokens : tokens.map Token.spelling = spelled ++ more) :
    ∃ (tree : ParseTree phrase) (behind : List Token), tokens = tree.tokens ++ behind ∧
      tree.Settled scope ∧ property tree ∧ behind.map Token.spelling = more := by
  obtain ⟨own, behind, rfl, hown, hbehind⟩ := List.map_eq_append_iff.mp htokens
  obtain ⟨tree, rfl, hsettled, hproperty⟩ := h own hown
  exact ⟨tree, behind, rfl, hsettled, hproperty, hbehind⟩

namespace Expr

/-- Whether the value is the expression, up to positions. -/
def Matches (expr value : Expr) : Prop :=
  value.unplaced = expr.unplaced

/-- Whether the value is the binding, up to positions. -/
def MatchesBinding (binding value : String × Expr) : Prop :=
  value.1 = binding.1 ∧ binding.2.Matches value.2

/-- Whether the text of the expression forms an operand that stands for it. It is greedy before
any text if it is not open at its end. -/
def RereadsAsOperand (scope : Scope) (expr : Expr) : Prop :=
  Rereads scope (.expression .operand) expr.spelled fun tree ↦
    expr.Matches (tree.value scope.declarations.builtins) ∧
      (expr.openEnded = false → ∀ rest, tree.Greedy rest)

open ParseTree

variable {scope : Scope}

/-- What forms an operand forms an expression. -/
theorem RereadsAsOperand.rereads {expr : Expr} (h : expr.RereadsAsOperand scope) :
    Rereads scope (.expression .sum) expr.spelled
      fun tree ↦ expr.Matches (tree.value scope.declarations.builtins) := by
  intro tokens htokens
  obtain ⟨tree, hspelled, hsettled, hvalue, -⟩ := h tokens htokens
  have halike := alike_raise .sum tree
  have hraised : expr.Matches ((raise .sum tree).value scope.declarations.builtins) := by
    rw [halike.value]
    exact hvalue
  exact ⟨raise .sum tree, halike.tokens.trans hspelled, hsettled.alike halike, hraised⟩

theorem rereads_binding {name : String} {value : Expr} (h : value.RereadsAsOperand scope) :
    Rereads scope .binding ((.identifier, name) :: (.operator, "=") :: value.spelled)
      fun tree ↦ MatchesBinding (name, value) (tree.value scope.declarations.builtins) := by
  intro tokens htokens
  obtain ⟨token, behindName, rfl, htext, hbehindName⟩ := Token.exists_of_spelled htokens
  obtain ⟨equals, behind, rfl, hequals, hbehind⟩ := Token.exists_of_spelled hbehindName
  obtain ⟨tree, rfl, hsettled, hvalue⟩ := h.rereads behind hbehind
  exact ⟨binding token ⟨equals.val, equals.property, List.mem_singleton.mpr hequals⟩ tree, rfl,
    ⟨hsettled.declared, hsettled.valid, hsettled.greedy⟩, htext, hvalue⟩

end Expr

/-! ### Items -/

/-- Several rows with commas between them are the first one and the others with a comma before
each. -/
theorem commaJoined_cons (first : List (TokenKind × String))
    (others : List (List (TokenKind × String))) :
    commaJoined (first :: others) = first ++ others.flatMap ((.comma, ",") :: ·) := by
  induction others generalizing first with
  | nil => simp [commaJoined]
  | cons second others ih =>
    have hfirst : commaJoined (first :: second :: others) =
        first ++ (.comma, ",") :: commaJoined (second :: others) := by
      simp [commaJoined, List.intercalate_cons_cons]
    rw [hfirst, ih, List.flatMap_cons, List.cons_append]

/-- What stands behind an item, a comma or what stands behind all items, carries nothing on. -/
theorem Level.endsBefore_of_commas {level : Level} {tokens rest : List Token}
    {others : List (List (TokenKind × String))}
    (h : tokens.map Token.spelling = others.flatMap ((.comma, ",") :: ·))
    (hrest : level.EndsBefore rest) : level.EndsBefore (tokens ++ rest) := by
  cases others with
  | nil =>
    obtain rfl := List.map_eq_nil_iff.mp h
    exact hrest
  | cons other others =>
    rw [List.flatMap_cons, List.cons_append] at h
    obtain ⟨comma, behind, rfl, -⟩ := Token.exists_of_spelled h
    exact endsBefore_of_kind (by rw [comma.property]; decide)

section Items

open ParseTree

variable {scope : Scope} {item : Phrase} {α : Type} {values : List α}
  {spelled : α → List (TokenKind × String)} {meaning : α → item.Value → Prop}

/-- What stands behind the first of several items. -/
theorem rereads_moreItems
    (h : ∀ value ∈ values, Rereads scope item (spelled value)
      fun tree ↦ meaning value (tree.value scope.declarations.builtins)) :
    Rereads scope (.moreItems item) ((values.map spelled).flatMap ((.comma, ",") :: ·))
      fun tree ↦ List.Forall₂ meaning values (tree.value scope.declarations.builtins) := by
  induction values with
  | nil =>
    intro tokens htokens
    obtain rfl := List.map_eq_nil_iff.mp htokens
    exact ⟨noMoreItems, rfl, ⟨rfl, fun _ ↦ trivial, fun _ _ ↦ trivial⟩, .nil⟩
  | cons value values ih =>
    obtain ⟨hvalue, hvalues⟩ := List.forall_mem_cons.mp h
    intro tokens htokens
    rw [List.map_cons, List.flatMap_cons, List.cons_append] at htokens
    obtain ⟨comma, behind, rfl, -, hbehind⟩ := Token.exists_of_spelled htokens
    obtain ⟨tree, others, rfl, hsettled, hmeaning, hothers⟩ := hvalue.split hbehind
    obtain ⟨more, rfl, hmore, hmeanings⟩ := ih hvalues others hothers
    refine ⟨moreItems comma tree more, rfl, ⟨?_, fun before ↦ ?_, fun rest hends ↦ ?_⟩,
      .cons hmeaning hmeanings⟩
    · rw [declared, hsettled.declared, hmore.declared, List.append_nil]
    · exact ⟨hsettled.valid before, hmore.valid _⟩
    · exact ⟨hsettled.greedy _ (Level.endsBefore_of_commas hothers hends), hmore.greedy rest hends⟩

theorem rereads_items
    (h : ∀ value ∈ values, Rereads scope item (spelled value)
      fun tree ↦ meaning value (tree.value scope.declarations.builtins)) :
    Rereads scope (.items item) (commaJoined (values.map spelled))
      fun tree ↦ List.Forall₂ meaning values (tree.value scope.declarations.builtins) := by
  intro tokens htokens
  cases values with
  | nil =>
    obtain rfl := List.map_eq_nil_iff.mp htokens
    exact ⟨noItems, rfl, ⟨rfl, fun _ ↦ trivial, fun _ _ ↦ trivial⟩, .nil⟩
  | cons value values =>
    obtain ⟨hvalue, hvalues⟩ := List.forall_mem_cons.mp h
    rw [List.map_cons, commaJoined_cons] at htokens
    obtain ⟨tree, others, rfl, hsettled, hmeaning, hothers⟩ := hvalue.split htokens
    obtain ⟨more, rfl, hmore, hmeanings⟩ := rereads_moreItems hvalues others hothers
    refine ⟨items tree more, rfl, ⟨?_, fun before ↦ ?_, fun rest hends ↦ ?_⟩,
      .cons hmeaning hmeanings⟩
    · rw [declared, hsettled.declared, hmore.declared, List.append_nil]
    · exact ⟨hsettled.valid before, hmore.valid _⟩
    · exact ⟨hsettled.greedy _ (Level.endsBefore_of_commas hothers hends), hmore.greedy rest hends⟩

end Items

/-! ### Operands -/

namespace Expr

open ParseTree

variable {scope : Scope}

theorem unplacedArgs_of_matches {args values : List Expr} (h : List.Forall₂ Matches args values) :
    unplacedArgs values = unplacedArgs args := by
  induction h with
  | nil => rfl
  | cons hvalue _ ih => rw [unplacedArgs, unplacedArgs, ih, hvalue]

theorem unplacedBindings_of_matches {bindings values : List (String × Expr)}
    (h : List.Forall₂ MatchesBinding bindings values) :
    unplacedBindings values = unplacedBindings bindings := by
  induction h with
  | nil => rfl
  | cons hvalue _ ih => rw [unplacedBindings, unplacedBindings, ih, hvalue.1, hvalue.2]

/-- A single token that is an operand by itself. -/
theorem rereadsAsOperand_token {expr : Expr} {kind : TokenKind} {text : String}
    (hspelled : expr.spelled = [(kind, text)])
    (h : ∀ token : TokenOf kind, token.val.text = text →
      ∃ tree : ParseTree (.expression .operand), tree.tokens = [token.val] ∧
        tree.declared scope.declarations.builtins = [] ∧ (∀ before, tree.Valid scope before) ∧
        (∀ rest, tree.Greedy rest) ∧ expr.Matches (tree.value scope.declarations.builtins)) :
    expr.RereadsAsOperand scope := by
  intro tokens htokens
  rw [hspelled] at htokens
  obtain ⟨token, behind, rfl, htext, hbehind⟩ := Token.exists_of_spelled htokens
  obtain rfl := List.map_eq_nil_iff.mp hbehind
  obtain ⟨tree, htree, hdeclared, hvalid, hgreedy, hvalue⟩ := h token htext
  exact ⟨tree, htree, ⟨hdeclared, hvalid, fun rest _ ↦ hgreedy rest⟩, hvalue, fun _ ↦ hgreedy⟩

theorem rereadsAsOperand_number (pos : Pos) {x : Float}
    (h : Number.WrittenAs x (Value.number x).literal) :
    (literal pos (.number x)).RereadsAsOperand scope := by
  obtain ⟨-, -, -, -, hread⟩ := h
  refine rereadsAsOperand_token (by rw [spelled]) fun token htext ↦ ?_
  rw [← htext] at hread
  refine ⟨number token, rfl, rfl, fun _ ↦ ?_, fun _ ↦ trivial, ?_⟩
  · rw [Valid, hread]
    rfl
  · rw [value, hread]
    rfl

theorem rereadsAsOperand_text (pos : Pos) (content : String) :
    (literal pos (.text content)).RereadsAsOperand scope := by
  refine rereadsAsOperand_token (by rw [spelled]) fun token htext ↦ ?_
  refine ⟨string token, rfl, rfl, fun _ ↦ trivial, fun _ ↦ trivial, ?_⟩
  rw [value, htext]
  rfl

theorem rereadsAsOperand_access (pos : Pos) (name : String) :
    (Expr.access pos name).RereadsAsOperand scope := by
  refine rereadsAsOperand_token (by rw [spelled]) fun token htext ↦ ?_
  refine ⟨ParseTree.access token, rfl, rfl, fun _ ↦ trivial, fun _ ↦ trivial, ?_⟩
  rw [value, htext]
  rfl

/-- An operation between parentheses. A left operand that is not open at its end stops before
the operator. -/
theorem rereadsAsOperand_calculation (pos : Pos) {op : Operator} {left right : Expr}
    (hop : op.calculates = true) (hclosed : left.openEnded = false)
    (hleft : left.RereadsAsOperand scope) (hright : right.RereadsAsOperand scope) :
    (Expr.binary pos op left right).RereadsAsOperand scope := by
  intro tokens htokens
  rw [spelled] at htokens
  obtain ⟨opening, behindOpening, rfl, -, hbehindOpening⟩ := Token.exists_of_spelled htokens
  obtain ⟨leftTree, behindLeft, rfl, hleftSettled, ⟨hleftValue, hleftGreedy⟩, hbehindLeft⟩ :=
    hleft.split hbehindOpening
  obtain ⟨sign, behindSign, rfl, hsign, hbehindSign⟩ := Token.exists_of_spelled hbehindLeft
  obtain ⟨rightTree, behindRight, rfl, hrightSettled, ⟨hrightValue, -⟩, hbehindRight⟩ :=
    hright.split hbehindSign
  obtain ⟨closing, behind, rfl, -, hbehind⟩ := Token.exists_of_spelled hbehindRight
  obtain rfl := List.map_eq_nil_iff.mp hbehind
  obtain ⟨inner, hinner, hsettled, hvalue⟩ :=
    exists_operation hop sign hsign hleftSettled hrightSettled (hleftGreedy hclosed)
  have hgreedy (rest : List Token) : (paren opening inner closing).Greedy rest :=
    hsettled.greedy _ (Level.endsBefore_of_kind (by rw [closing.property]; decide))
  refine ⟨paren opening inner closing, ?_,
    ⟨hsettled.declared, hsettled.valid, fun rest _ ↦ hgreedy rest⟩, ?_, fun _ ↦ hgreedy⟩
  · rw [ParseTree.tokens, hinner, List.append_assoc]
    rfl
  · rw [ParseTree.value, hvalue, Matches, unplaced, unplaced, hleftValue, hrightValue]

/-- A call, of a built-in function or of a declared one. -/
theorem exists_call {name : String} {args : List Expr} {tokens : List Token}
    (hfunction : scope.declarations.isFunction name = true)
    (hargs : ∀ arg ∈ args, arg.RereadsAsOperand scope)
    (htokens : tokens.map Token.spelling = (.identifier, name) :: (.leftParen, "(") ::
      (commaJoined (spelledArgs args) ++ [(.rightParen, ")")])) :
    ∃ (token : TokenOf .identifier) (opening : TokenOf .leftParen)
      (inner : ParseTree (.items (.expression .sum))) (closing : TokenOf .rightParen),
      (call token opening inner closing).tokens = tokens ∧ token.val.text = name ∧
        (call token opening inner closing).Settled scope ∧
        (∀ rest, (call token opening inner closing).Greedy rest) ∧
        unplacedArgs (inner.value scope.declarations.builtins) = unplacedArgs args := by
  rw [spelledArgs_eq_map] at htokens
  obtain ⟨token, behindName, rfl, rfl, hbehindName⟩ := Token.exists_of_spelled htokens
  obtain ⟨opening, behindOpening, rfl, -, hbehindOpening⟩ := Token.exists_of_spelled hbehindName
  obtain ⟨inner, behindArgs, rfl, hsettled, hvalues, hbehindArgs⟩ :=
    (rereads_items fun arg harg ↦ (hargs arg harg).rereads).split hbehindOpening
  obtain ⟨closing, behind, rfl, -, hbehind⟩ := Token.exists_of_spelled hbehindArgs
  obtain rfl := List.map_eq_nil_iff.mp hbehind
  have hgreedy (rest : List Token) : (call token opening inner closing).Greedy rest :=
    hsettled.greedy _ (Level.endsBefore_of_kind (by rw [closing.property]; decide))
  refine ⟨token, opening, inner, closing, rfl, rfl, ⟨hsettled.declared, fun before ↦ ?_,
    fun rest _ ↦ hgreedy rest⟩, hgreedy, unplacedArgs_of_matches hvalues⟩
  exact ⟨hsettled.valid before, .inl hfunction⟩

theorem rereadsAsOperand_builtinCall (pos : Pos) {name : String} {args : List Expr}
    (hname : scope.declarations.builtins.contains name = true)
    (hargs : ∀ arg ∈ args, arg.RereadsAsOperand scope) :
    (builtinCall pos name args).RereadsAsOperand scope := by
  intro tokens htokens
  rw [spelled] at htokens
  have hfunction : scope.declarations.isFunction name = true := by
    rw [Declarations.isFunction, hname, Bool.true_or]
  obtain ⟨token, opening, inner, closing, rfl, rfl, hsettled, hgreedy, hvalues⟩ :=
    exists_call hfunction hargs htokens
  refine ⟨call token opening inner closing, rfl, hsettled, ?_, fun _ ↦ hgreedy⟩
  rw [ParseTree.value, if_pos hname, Matches, unplaced, unplaced, hvalues]

theorem rereadsAsOperand_userCall (pos : Pos) {name : String} {args : List Expr}
    (hname : scope.declarations.builtins.contains name = false)
    (hcallable : scope.declarations.functions.contains name = true)
    (hargs : ∀ arg ∈ args, arg.RereadsAsOperand scope) :
    (userCall pos name args).RereadsAsOperand scope := by
  intro tokens htokens
  rw [spelled] at htokens
  have hfunction : scope.declarations.isFunction name = true := by
    rw [Declarations.isFunction, hcallable, Bool.or_true]
  obtain ⟨token, opening, inner, closing, rfl, rfl, hsettled, hgreedy, hvalues⟩ :=
    exists_call hfunction hargs htokens
  refine ⟨call token opening inner closing, rfl, hsettled, ?_, fun _ ↦ hgreedy⟩
  rw [ParseTree.value, if_neg (by simp [hname]), Matches, unplaced, unplaced, hvalues]

/-- A condition between parentheses and both branches. The last branch takes in what follows. -/
theorem rereadsAsOperand_ifThenElse (pos conditionPos : Pos) {op : Operator}
    {left right thenBranch elseBranch : Expr} (hop : op.compares = true)
    (hleft : left.RereadsAsOperand scope) (hright : right.RereadsAsOperand scope)
    (hthen : thenBranch.RereadsAsOperand scope) (helse : elseBranch.RereadsAsOperand scope) :
    (Expr.ifThenElse pos (.binary conditionPos op left right) thenBranch
      elseBranch).RereadsAsOperand scope := by
  intro tokens htokens
  obtain ⟨hofText, hkind⟩ := Operator.kind_of_compares hop
  rw [spelled, spelled, List.cons_append, List.append_assoc, List.cons_append, List.append_assoc,
    List.singleton_append, hkind] at htokens
  obtain ⟨word, behindWord, rfl, -, hbehindWord⟩ := Token.exists_of_spelled htokens
  obtain ⟨opening, behindOpening, rfl, -, hbehindOpening⟩ := Token.exists_of_spelled hbehindWord
  obtain ⟨leftTree, behindLeft, rfl, hleftSettled, hleftValue, hbehindLeft⟩ :=
    hleft.rereads.split hbehindOpening
  obtain ⟨sign, behindSign, rfl, hsign, hbehindSign⟩ := Token.exists_of_spelled hbehindLeft
  obtain ⟨rightTree, behindRight, rfl, hrightSettled, hrightValue, hbehindRight⟩ :=
    hright.rereads.split hbehindSign
  obtain ⟨closing, behindClosing, rfl, -, hbehindClosing⟩ := Token.exists_of_spelled hbehindRight
  obtain ⟨thenWord, behindThenWord, rfl, -, hbehindThenWord⟩ :=
    Token.exists_of_spelled hbehindClosing
  obtain ⟨thenTree, behindThen, rfl, hthenSettled, hthenValue, hbehindThen⟩ :=
    hthen.rereads.split hbehindThenWord
  obtain ⟨elseWord, elseTokens, rfl, -, helseTokens⟩ := Token.exists_of_spelled hbehindThen
  obtain ⟨elseTree, rfl, helseSettled, helseValue⟩ := helse.rereads elseTokens helseTokens
  refine ⟨.ifThenElse word opening leftTree sign rightTree closing thenWord thenTree elseWord
    elseTree, rfl, ⟨?_, fun before ↦ ?_, fun rest hends ↦ ?_⟩, ?_,
    fun hclosed ↦ Bool.noConfusion hclosed⟩
  · rw [declared, hleftSettled.declared, hrightSettled.declared, hthenSettled.declared,
      helseSettled.declared]
    rfl
  · exact ⟨hleftSettled.valid _, hrightSettled.valid _, hthenSettled.valid _,
      helseSettled.valid _⟩
  · exact ⟨hleftSettled.greedy _ (Level.endsBefore_of_kind (by rw [sign.property]; decide)),
      hrightSettled.greedy _ (Level.endsBefore_of_kind (by rw [closing.property]; decide)),
      hthenSettled.greedy _ (Level.endsBefore_of_kind (by rw [elseWord.property]; decide)),
      helseSettled.greedy rest hends, hends⟩
  · rw [ParseTree.value, Matches, unplaced, unplaced, unplaced, unplaced, hleftValue, hrightValue,
      hthenValue, helseValue, hsign, hofText]

/-- A binding and a body, which takes in what follows. -/
theorem rereadsAsOperand_letIn (pos : Pos) {name : String} {value body : Expr}
    (hvalue : value.RereadsAsOperand scope) (hbody : body.RereadsAsOperand scope) :
    (Expr.letIn pos name value body).RereadsAsOperand scope := by
  intro tokens htokens
  rw [spelled, ← List.cons_append, ← List.cons_append] at htokens
  obtain ⟨word, behindWord, rfl, -, hbehindWord⟩ := Token.exists_of_spelled htokens
  obtain ⟨bound, behindBound, rfl, hboundSettled, ⟨hname, hboundValue⟩, hbehindBound⟩ :=
    (rereads_binding hvalue).split hbehindWord
  obtain ⟨inWord, bodyTokens, rfl, -, hbodyTokens⟩ := Token.exists_of_spelled hbehindBound
  obtain ⟨tree, rfl, hsettled, hbodyValue⟩ := hbody.rereads bodyTokens hbodyTokens
  refine ⟨.letIn word bound inWord tree, rfl, ⟨?_, fun before ↦ ?_, fun rest hends ↦ ?_⟩, ?_,
    fun hclosed ↦ Bool.noConfusion hclosed⟩
  · rw [declared, hboundSettled.declared, hsettled.declared, List.append_nil]
  · exact ⟨hboundSettled.valid _, hsettled.valid _⟩
  · exact ⟨hboundSettled.greedy _ (Level.endsBefore_of_kind (by rw [inWord.property]; decide)),
      hsettled.greedy rest hends, hends⟩
  · rw [ParseTree.value, Matches, unplaced, unplaced, hname, hboundValue, hbodyValue]

/-- Bindings between braces and a body, which takes in what follows. -/
theorem rereadsAsOperand_letGroup (pos : Pos) {bindings : List (String × Expr)} {body : Expr}
    (hbindings : ∀ binding ∈ bindings, binding.2.RereadsAsOperand scope)
    (hbody : body.RereadsAsOperand scope) :
    (Expr.letGroup pos bindings body).RereadsAsOperand scope := by
  intro tokens htokens
  rw [spelled, spelledBindings_eq_map] at htokens
  obtain ⟨word, behindWord, rfl, -, hbehindWord⟩ := Token.exists_of_spelled htokens
  obtain ⟨arrow, behindArrow, rfl, -, hbehindArrow⟩ := Token.exists_of_spelled hbehindWord
  obtain ⟨opening, behindOpening, rfl, -, hbehindOpening⟩ := Token.exists_of_spelled hbehindArrow
  obtain ⟨group, behindGroup, rfl, hgroupSettled, hgroupValues, hbehindGroup⟩ :=
    (rereads_items fun binding hbinding ↦ rereads_binding (hbindings binding hbinding)).split
      hbehindOpening
  obtain ⟨closing, behindClosing, rfl, -, hbehindClosing⟩ := Token.exists_of_spelled hbehindGroup
  obtain ⟨inWord, bodyTokens, rfl, -, hbodyTokens⟩ := Token.exists_of_spelled hbehindClosing
  obtain ⟨tree, rfl, hsettled, hbodyValue⟩ := hbody.rereads bodyTokens hbodyTokens
  refine ⟨.letGroup word arrow opening group closing inWord tree, rfl,
    ⟨?_, fun before ↦ ?_, fun rest hends ↦ ?_⟩, ?_, fun hclosed ↦ Bool.noConfusion hclosed⟩
  · rw [declared, hgroupSettled.declared, hsettled.declared, List.append_nil]
  · exact ⟨hgroupSettled.valid _, hsettled.valid _⟩
  · exact ⟨hgroupSettled.greedy _ (Level.endsBefore_of_kind (by rw [closing.property]; decide)),
      hsettled.greedy rest hends, hends⟩
  · rw [ParseTree.value, Matches, unplaced, unplaced, unplacedBindings_of_matches hgroupValues,
      hbodyValue]

/-- The text of an expression that can be printed derives the expression again. A comparison is
no operand, but both of its sides are. -/
theorem rereadsAsOperand {expr : Expr}
    (h : expr.Everywhere (IsPrinted scope.declarations.builtins
      (scope.declarations.functions.contains · = true))) :
    (expr.compares = false → expr.RereadsAsOperand scope) ∧
      (expr.compares = true → ∀ side ∈ expr.children, side.RereadsAsOperand scope) := by
  induction expr using inductionOn with
  | literal pos value =>
    obtain ⟨⟨x, rfl⟩ | ⟨content, rfl⟩, -, hvalue⟩ := h _ (.self _)
    · exact ⟨fun _ ↦ rereadsAsOperand_number pos (Value.writtenAs_literal hvalue), nofun⟩
    · exact ⟨fun _ ↦ rereadsAsOperand_text pos content, nofun⟩
  | access pos name => exact ⟨fun _ ↦ rereadsAsOperand_access pos name, nofun⟩
  | binary pos op left right hleft hright =>
    obtain ⟨⟨⟨hop, hleftPlain, hrightPlain⟩, -, hclosed⟩, hleftNodes, hrightNodes⟩ :=
      everywhere_binary_iff.mp h
    have hleft := (hleft hleftNodes).1 hleftPlain
    have hright := (hright hrightNodes).1 hrightPlain
    constructor
    · intro hplain
      have hop := hop.resolve_right (ne_true_of_eq_false hplain)
      exact rereadsAsOperand_calculation pos hop (hclosed hop) hleft hright
    · exact fun _ ↦ List.forall_mem_cons.mpr ⟨hleft, List.forall_mem_singleton.mpr hright⟩
  | ifThenElse pos condition thenBranch elseBranch hcondition hthen helse =>
    obtain ⟨⟨⟨hcompares, hthenPlain, helsePlain⟩, -⟩, hconditionNodes, hthenNodes, helseNodes⟩ :=
      everywhere_ifThenElse_iff.mp h
    have hsides := (hcondition hconditionNodes).2 hcompares
    have hthen := (hthen hthenNodes).1 hthenPlain
    have helse := (helse helseNodes).1 helsePlain
    refine ⟨fun _ ↦ ?_, nofun⟩
    cases condition with
    | binary conditionPos op left right =>
      obtain ⟨hleft, hright⟩ := List.forall_mem_cons.mp hsides
      exact rereadsAsOperand_ifThenElse pos conditionPos hcompares hleft
        (List.forall_mem_singleton.mp hright) hthen helse
    | _ => cases hcompares
  | letIn pos name value body hvalue hbody =>
    obtain ⟨⟨⟨hvaluePlain, hbodyPlain⟩, -⟩, hvalueNodes, hbodyNodes⟩ := everywhere_letIn_iff.mp h
    exact ⟨fun _ ↦ rereadsAsOperand_letIn pos ((hvalue hvalueNodes).1 hvaluePlain)
      ((hbody hbodyNodes).1 hbodyPlain), nofun⟩
  | letGroup pos bindings body hbindings hbody =>
    obtain ⟨⟨⟨hplains, hbodyPlain⟩, -⟩, hnodes, hbodyNodes⟩ := everywhere_letGroup_iff.mp h
    have hbindings (binding : String × Expr) (hbinding : binding ∈ bindings) :=
      (hbindings binding hbinding (hnodes binding hbinding)).1 (hplains binding hbinding)
    exact ⟨fun _ ↦ rereadsAsOperand_letGroup pos hbindings ((hbody hbodyNodes).1 hbodyPlain), nofun⟩
  | userCall pos name args hargs =>
    obtain ⟨⟨⟨hname, hcallable, hplains⟩, -⟩, hnodes⟩ := everywhere_iff.mp h
    have hargs (arg : Expr) (harg : arg ∈ args) :=
      (hargs arg harg (hnodes arg harg)).1 (hplains arg harg)
    exact ⟨fun _ ↦ rereadsAsOperand_userCall pos hname hcallable hargs, nofun⟩
  | builtinCall pos name args hargs =>
    obtain ⟨⟨⟨hname, hplains⟩, -⟩, hnodes⟩ := everywhere_iff.mp h
    have hargs (arg : Expr) (harg : arg ∈ args) :=
      (hargs arg harg (hnodes arg harg)).1 (hplains arg harg)
    exact ⟨fun _ ↦ rereadsAsOperand_builtinCall pos hname hargs, nofun⟩
  | function pos name parameters body hbody => exact (h _ (.self _)).1.elim
  | endMarker pos => exact (h _ (.self _)).2.2.elim

end Expr

namespace Statement

/-- Tokens that are spelled as the text of a printed expression, with an end mark behind them, have
a derivation of the expression, which declares nothing. -/
theorem exists_derives_of_spelled {declarations : Declarations} {expr : Expr}
    (h : expr.Everywhere (Expr.IsPrinted declarations.builtins
      (declarations.functions.contains · = true)))
    (hplain : expr.compares = false) {tokens : List Token}
    (htokens : tokens.map Token.spelling = expr.spelled ++ [(.eof, "")]) :
    ∃ tree : StatementTree, tree.Derives declarations tokens ∧
      (tree.statement declarations.builtins).declared = [] ∧
        (tree.statement declarations.builtins).expr.unplaced = expr.unplaced := by
  have hoperand : expr.RereadsAsOperand ⟨declarations, none⟩ :=
    (Expr.rereadsAsOperand h).1 hplain
  obtain ⟨tree, behind, rfl, hsettled, hvalue, hbehind⟩ := hoperand.rereads.split htokens
  obtain ⟨mark, rest, rfl, -, hrest⟩ := Token.exists_of_spelled hbehind
  obtain rfl := List.map_eq_nil_iff.mp hrest
  have hmark : ∀ token ∈ [mark.val].head?, token.kind = .eof := by
    intro token htoken
    cases htoken
    exact mark.property
  have hgreedy := hsettled.greedy [] nofun
  exact ⟨⟨tree, none⟩, ⟨takeWhile_ne_eof ⟨tree, none⟩ hmark, hgreedy, hsettled.valid []⟩,
    hsettled.declared, hvalue⟩

/-- All tokens that are spelled as the text of a printed expression, with an end mark behind
them, are read as an expression that differs in its positions only, and nothing is declared,
unless the limit on nesting is in the way. -/
theorem ofTokens_of_spelled {declarations : Declarations} {expr : Expr}
    (h : expr.Everywhere (Expr.IsPrinted declarations.builtins
      (declarations.functions.contains · = true)))
    (hplain : expr.compares = false) {tokens : List Token}
    (htokens : tokens.map Token.spelling = expr.spelled ++ [(.eof, "")]) :
    ∃ again : Expr, again.unplaced = expr.unplaced ∧
      ∀ limit, (ofTokens limit declarations tokens = .error .tooDeep ∨
          ofTokens limit declarations tokens = .ok ⟨again, []⟩) ∧
        (4 * tokens.length ≤ limit → ofTokens limit declarations tokens = .ok ⟨again, []⟩) := by
  obtain ⟨tree, hderives, hdeclared, hvalue⟩ := exists_derives_of_spelled h hplain htokens
  have hstatement : tree.statement declarations.builtins =
      ⟨tree.expr.value declarations.builtins, []⟩ := by
    rw [← hdeclared]
    rfl
  refine ⟨_, hvalue, fun limit ↦ ⟨?_, fun hlimit ↦ ?_⟩⟩
  · exact hstatement ▸ ofTokens_under_of_derives hderives limit
  · exact hstatement ▸ ofTokens_of_derives hderives hlimit

end Statement

end Reckoner
