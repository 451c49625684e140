import Reckoner.Proofs.Expr.Nodes
import Reckoner.Proofs.Grammar.ParseTree
import Reckoner.Proofs.Token.Names

/-!
What is left of the words of a statement in its expression. The names in the expression are
identifiers and its strings have no quotes, because the tokens are so spelled; and an expression
without end markers comes from a statement without declarations.
-/

set_option autoImplicit false
set_option relaxedAutoImplicit false

namespace Reckoner

/-- Whether the names bound in a value and the expressions in it have the given properties. -/
def Phrase.Throughout (named : String → Prop) (property : Expr → Prop) :
    (phrase : Phrase) → phrase.Value → Prop
  | expression _, expr => property expr
  | operations _, row => ∀ operation ∈ row, property operation.2
  | binding, bound => named bound.1 ∧ property bound.2
  | items item, values => ∀ value ∈ values, item.Throughout named property value
  | moreItems item, values => ∀ value ∈ values, item.Throughout named property value

namespace Expr

/-- Whether the names at the node are identifiers, and its text has no quotes. -/
def IsSpelled : Expr → Prop
  | literal _ (.text content) => '"' ∉ content.toList
  | access _ name => IsIdentifier name
  | letIn _ name _ _ => IsIdentifier name
  | letGroup _ bindings _ => ∀ binding ∈ bindings, IsIdentifier binding.1
  | userCall _ name _ => IsIdentifier name
  | builtinCall _ name _ => IsIdentifier name
  | _ => True

/-- Whether the node is what is left of a declaration or a print. -/
def isEndMarker : Expr → Bool
  | endMarker _ => true
  | _ => false

variable {property : Expr → Prop}

/-- The nodes of operations are those of their operands and the operations themselves. -/
theorem everywhere_operate_iff (hbinary : ∀ pos op left right, property (.binary pos op left right))
    {left : Expr} {operations : List (Token × Expr)} :
    (left.operate operations).Everywhere property ↔
      left.Everywhere property ∧ ∀ operation ∈ operations, operation.2.Everywhere property := by
  induction operations generalizing left with
  | nil => simp [operate]
  | cons operation operations ih =>
    have hfirst : (left.operate (operation :: operations)) =
        (binary operation.1.pos (.ofText operation.1.text) left operation.2).operate
          operations := rfl
    rw [hfirst, ih, everywhere_binary_iff, List.forall_mem_cons]
    constructor
    · rintro ⟨⟨-, hleft, hright⟩, hmore⟩
      exact ⟨hleft, hright, hmore⟩
    · rintro ⟨hleft, hright, hmore⟩
      exact ⟨⟨hbinary _ _ _ _, hleft, hright⟩, hmore⟩

end Expr

namespace ParseTree

variable {builtins : NameMap Builtin}

/-- The names and strings of an expression are spelled as its tokens are. -/
theorem throughout_spelled {phrase : Phrase} (tree : ParseTree phrase)
    (h : ∀ token ∈ tree.tokens, token.WellSpelled) :
    phrase.Throughout IsIdentifier (Expr.Everywhere Expr.IsSpelled) (tree.value builtins) := by
  induction tree with
  | chain loose first more hfirst hmore =>
    obtain ⟨hfirstTokens, hmoreTokens⟩ := List.forall_mem_append.mp h
    exact (Expr.everywhere_operate_iff fun _ _ _ _ ↦ trivial).mpr
      ⟨hfirst hfirstTokens, hmore hmoreTokens⟩
  | noOperation => exact List.forall_mem_nil _
  | operation sign right more hright hmore =>
    obtain ⟨hrightTokens, hmoreTokens⟩ :=
      List.forall_mem_append.mp (List.forall_mem_cons.mp h).2
    exact List.forall_mem_cons.mpr ⟨hright hrightTokens, hmore hmoreTokens⟩
  | paren opening inner closing hinner =>
    exact hinner (List.forall_mem_append.mp (List.forall_mem_cons.mp h).2).1
  | negation minus right hright =>
    have hzero : (Expr.literal minus.val.pos (.number 0.0)).Everywhere Expr.IsSpelled :=
      Expr.everywhere_iff.mpr ⟨trivial, List.forall_mem_nil _⟩
    exact Expr.everywhere_binary_iff.mpr
      ⟨trivial, hzero, hright (List.forall_mem_cons.mp h).2⟩
  | number token => exact Expr.everywhere_iff.mpr ⟨trivial, List.forall_mem_nil _⟩
  | string token =>
    have htoken := (List.forall_mem_singleton.mp h).string token.property
    exact Expr.everywhere_iff.mpr ⟨htoken, List.forall_mem_nil _⟩
  | access name =>
    have hname := (List.forall_mem_singleton.mp h).identifier name.property
    exact Expr.everywhere_iff.mpr ⟨hname, List.forall_mem_nil _⟩
  | call name opening args closing hargs =>
    obtain ⟨hname, hbehind⟩ := List.forall_mem_cons.mp h
    have hname := hname.identifier name.property
    have hargs := hargs (List.forall_mem_append.mp (List.forall_mem_cons.mp hbehind).2).1
    rw [value]
    split
    · exact Expr.everywhere_iff.mpr ⟨hname, hargs⟩
    · exact Expr.everywhere_iff.mpr ⟨hname, hargs⟩
  | letIn word bound inWord body hbound hbody =>
    obtain ⟨hboundTokens, hbehind⟩ :=
      List.forall_mem_append.mp (List.forall_mem_cons.mp h).2
    obtain ⟨hname, hvalue⟩ := hbound hboundTokens
    have hbody := hbody (List.forall_mem_cons.mp hbehind).2
    exact Expr.everywhere_letIn_iff.mpr ⟨hname, hvalue, hbody⟩
  | letGroup word arrow opening bindings closing inWord body hbindings hbody =>
    obtain ⟨-, hbehindWord⟩ := List.forall_mem_cons.mp h
    obtain ⟨-, hbehindArrow⟩ := List.forall_mem_cons.mp hbehindWord
    obtain ⟨hbindingsTokens, hbehind⟩ :=
      List.forall_mem_append.mp (List.forall_mem_cons.mp hbehindArrow).2
    have hbindings := hbindings hbindingsTokens
    have hbody := hbody (List.forall_mem_cons.mp (List.forall_mem_cons.mp hbehind).2).2
    exact Expr.everywhere_letGroup_iff.mpr ⟨fun binding hbinding ↦ (hbindings binding hbinding).1,
      fun binding hbinding ↦ (hbindings binding hbinding).2, hbody⟩
  | ifThenElse word opening left comparison right closing thenWord thenBranch elseWord elseBranch
      hleft hright hthen helse =>
    obtain ⟨-, hbehindWord⟩ := List.forall_mem_cons.mp h
    obtain ⟨hleftTokens, hbehindLeft⟩ :=
      List.forall_mem_append.mp (List.forall_mem_cons.mp hbehindWord).2
    obtain ⟨hrightTokens, hbehindRight⟩ :=
      List.forall_mem_append.mp (List.forall_mem_cons.mp hbehindLeft).2
    obtain ⟨-, hbehindParen⟩ := List.forall_mem_cons.mp hbehindRight
    obtain ⟨hthenTokens, hbehindThen⟩ :=
      List.forall_mem_append.mp (List.forall_mem_cons.mp hbehindParen).2
    have helse := helse (List.forall_mem_cons.mp hbehindThen).2
    have hcondition : (Expr.binary comparison.val.pos (.ofText comparison.val.text)
        (left.value builtins) (right.value builtins)).Everywhere Expr.IsSpelled :=
      Expr.everywhere_binary_iff.mpr ⟨trivial, hleft hleftTokens, hright hrightTokens⟩
    exact Expr.everywhere_ifThenElse_iff.mpr ⟨trivial, hcondition, hthen hthenTokens, helse⟩
  | function word name parameters arrow body hbody =>
    exact Expr.everywhere_iff.mpr ⟨trivial, List.forall_mem_nil _⟩
  | const word bound hbound => exact Expr.everywhere_iff.mpr ⟨trivial, List.forall_mem_nil _⟩
  | print word opening inner closing hinner =>
    exact Expr.everywhere_iff.mpr ⟨trivial, List.forall_mem_nil _⟩
  | binding name equals value hvalue =>
    obtain ⟨hname, hbehind⟩ := List.forall_mem_cons.mp h
    exact ⟨hname.identifier name.property, hvalue (List.forall_mem_cons.mp hbehind).2⟩
  | noItems => exact List.forall_mem_nil _
  | items first more hfirst hmore =>
    obtain ⟨hfirstTokens, hmoreTokens⟩ := List.forall_mem_append.mp h
    exact List.forall_mem_cons.mpr ⟨hfirst hfirstTokens, hmore hmoreTokens⟩
  | noMoreItems => exact List.forall_mem_nil _
  | moreItems comma first more hfirst hmore =>
    obtain ⟨hfirstTokens, hmoreTokens⟩ :=
      List.forall_mem_append.mp (List.forall_mem_cons.mp h).2
    exact List.forall_mem_cons.mpr ⟨hfirst hfirstTokens, hmore hmoreTokens⟩

/-- A tree whose value has no end marker in it declares nothing. -/
theorem declared_eq_nil {phrase : Phrase} (tree : ParseTree phrase)
    (h : phrase.Throughout (fun _ ↦ True) (Expr.Everywhere (·.isEndMarker = false))
      (tree.value builtins)) : tree.declared builtins = [] := by
  have hmarker {pos : Pos}
      (h : (Expr.endMarker pos).Everywhere (·.isEndMarker = false)) : False :=
    Bool.noConfusion (h _ (.self _))
  induction tree with
  | chain loose first more hfirst hmore =>
    obtain ⟨hvalue, hvalues⟩ := (Expr.everywhere_operate_iff fun _ _ _ _ ↦ rfl).mp h
    rw [declared, hfirst hvalue, hmore hvalues, List.append_nil]
  | noOperation => rfl
  | operation sign right more hright hmore =>
    obtain ⟨hvalue, hvalues⟩ := List.forall_mem_cons.mp h
    rw [declared, hright hvalue, hmore hvalues, List.append_nil]
  | paren opening inner closing hinner => exact hinner h
  | negation minus right hright => exact hright (Expr.everywhere_binary_iff.mp h).2.2
  | number token => rfl
  | string token => rfl
  | access name => rfl
  | call name opening args closing hargs =>
    refine hargs ?_
    rw [value] at h
    split at h
    · exact fun value hvalue ↦ h.child hvalue
    · exact fun value hvalue ↦ h.child hvalue
  | letIn word bound inWord body hbound hbody =>
    obtain ⟨-, hvalue, hinner⟩ := Expr.everywhere_letIn_iff.mp h
    rw [declared, hbound ⟨trivial, hvalue⟩, hbody hinner, List.append_nil]
  | letGroup word arrow opening bindings closing inWord body hbindings hbody =>
    obtain ⟨-, hvalues, hinner⟩ := Expr.everywhere_letGroup_iff.mp h
    rw [declared, hbindings fun binding hbinding ↦ ⟨trivial, hvalues binding hbinding⟩,
      hbody hinner, List.append_nil]
  | ifThenElse word opening left comparison right closing thenWord thenBranch elseWord elseBranch
      hleft hright hthen helse =>
    obtain ⟨-, hcondition, hthenValue, helseValue⟩ := Expr.everywhere_ifThenElse_iff.mp h
    obtain ⟨-, hleftValue, hrightValue⟩ := Expr.everywhere_binary_iff.mp hcondition
    rw [declared, hleft hleftValue, hright hrightValue, hthen hthenValue, helse helseValue]
    rfl
  | function word name parameters arrow body hbody => exact (hmarker h).elim
  | const word bound hbound => exact (hmarker h).elim
  | print word opening inner closing hinner => exact (hmarker h).elim
  | binding name equals value hvalue => exact hvalue h.2
  | noItems => rfl
  | items first more hfirst hmore =>
    obtain ⟨hvalue, hvalues⟩ := List.forall_mem_cons.mp h
    rw [declared, hfirst hvalue, hmore hvalues, List.append_nil]
  | noMoreItems => rfl
  | moreItems comma first more hfirst hmore =>
    obtain ⟨hvalue, hvalues⟩ := List.forall_mem_cons.mp h
    rw [declared, hfirst hvalue, hmore hvalues, List.append_nil]

end ParseTree

end Reckoner
