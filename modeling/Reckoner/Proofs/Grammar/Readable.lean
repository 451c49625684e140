import Reckoner.Proofs.Expr.Nodes
import Reckoner.Proofs.Grammar.ParseTree

/-!
Trees in order stand for readable expressions. A name in a call is that of a function in
force or of a function whose body the call stands in; the latter is declared by the time the
statement has been read, so all calls are of functions that may be called from then on.
-/

set_option autoImplicit false
set_option relaxedAutoImplicit false

namespace Reckoner

/-- The expression that the declaration keeps. -/
def Declaration.expr : Declaration → Expr
  | function definition => definition.body
  | constant _ value => value

/-- Whether all operators of the phrase are signs and all its expressions have the property. -/
def Phrase.Consists (property : Expr → Prop) : (phrase : Phrase) → phrase.Value → Prop
  | expression _, expr => property expr
  | operations level, row =>
    ∀ operation ∈ row, operation.1.text ∈ level.signs ∧ property operation.2
  | binding, bound => property bound.2
  | items item, values => ∀ value ∈ values, item.Consists property value
  | moreItems item, values => ∀ value ∈ values, item.Consists property value

/-- The signs of all levels calculate. -/
theorem Level.calculates_ofText {level : Level} {text : String} (h : text ∈ level.signs) :
    (Operator.ofText text).calculates = true := by
  have hsigns : ∀ text ∈ level.signs, (Operator.ofText text).calculates = true := by
    cases level <;> decide
  exact hsigns text h

namespace Expr

variable {builtins : NameMap Builtin} {callable : String → Prop}

theorem readable_operate {level : Level} {left : Expr} {operations : List (Token × Expr)}
    (hleft : left.Readable builtins callable)
    (h : (Phrase.operations level).Consists (Readable builtins callable) operations) :
    (left.operate operations).Readable builtins callable := by
  induction operations generalizing left with
  | nil => exact hleft
  | cons operation operations ih =>
    obtain ⟨hfirst, hmore⟩ := List.forall_mem_cons.mp h
    exact ih (readable_binary _ (Level.calculates_ofText hfirst.1) hleft hfirst.2) hmore

end Expr

namespace ParseTree

/-- A function that is declared has a name that was free. -/
theorem isFunction_of_declared {phrase : Phrase} (tree : ParseTree phrase) {scope : Scope}
    {before : List Declaration} (hvalid : tree.Valid scope before) :
    ∀ declaration ∈ tree.declared scope.declarations.builtins, ∀ name,
      declaration.declaresFunction name = true → scope.declarations.isFunction name = false := by
  induction tree generalizing scope before with
  | function word name parameters arrow body hbody =>
    have hinner := hbody hvalid.2.2.2
    refine List.forall_mem_append.mpr ⟨hinner, List.forall_mem_singleton.mpr ?_⟩
    intro other hother
    exact of_decide_eq_true hother ▸ hvalid.1
  | const word bound hbound =>
    exact List.forall_mem_append.mpr ⟨hbound hvalid, List.forall_mem_singleton.mpr nofun⟩
  | _ =>
    simp only [declared, Valid, List.forall_mem_append] at *
    grind

/-- The functions that may be called once the declarations have been made: those in force,
those whose bodies are being read and those that are declared. -/
structure Admits (scope : Scope) (declared : List Declaration) (callable : String → Prop) :
    Prop where
  functions : ∀ name, scope.declarations.functions.contains name = true → callable name
  declaring : ∀ name, scope.declaring = some name → callable name
  declared : ∀ declaration ∈ declared, ∀ name,
    declaration.declaresFunction name = true → callable name

variable {callable : String → Prop}

theorem Admits.of_subset {scope : Scope} {declared part : List Declaration}
    (h : Admits scope declared callable) (hpart : ∀ declaration ∈ part, declaration ∈ declared) :
    Admits scope part callable :=
  ⟨h.functions, h.declaring, fun declaration hmem ↦ h.declared declaration (hpart _ hmem)⟩

theorem Admits.append {scope : Scope} {first more : List Declaration}
    (h : Admits scope (first ++ more) callable) :
    Admits scope first callable ∧ Admits scope more callable :=
  ⟨h.of_subset fun _ ↦ List.mem_append_left _, h.of_subset fun _ ↦ List.mem_append_right _⟩

/-- Whether the comparisons among the tokens are written as comparisons. -/
def Comparing (tokens : List Token) : Prop :=
  ∀ token ∈ tokens, token.kind = .comparison → (Operator.ofText token.text).compares = true

theorem comparing_cons {token : Token} {tokens : List Token} (h : Comparing (token :: tokens)) :
    Comparing tokens :=
  fun other hother ↦ h other (List.mem_cons_of_mem token hother)

theorem comparing_append {first more : List Token} (h : Comparing (first ++ more)) :
    Comparing first ∧ Comparing more :=
  List.forall_mem_append.mp h

/-- What a tree in order stands for is readable, and so is what it declares. -/
theorem readable {phrase : Phrase} (tree : ParseTree phrase) {scope : Scope}
    {before : List Declaration} (hvalid : tree.Valid scope before)
    (hcomparing : Comparing tree.tokens)
    (hadmits : Admits scope (tree.declared scope.declarations.builtins) callable) :
    phrase.Consists (Expr.Readable scope.declarations.builtins callable)
        (tree.value scope.declarations.builtins) ∧
      ∀ declaration ∈ tree.declared scope.declarations.builtins,
        declaration.expr.Readable scope.declarations.builtins callable := by
  induction tree generalizing scope before with
  | chain loose first more hfirst hmore =>
    obtain ⟨hfirstTokens, hmoreTokens⟩ := comparing_append hcomparing
    obtain ⟨hfirstAdmits, hmoreAdmits⟩ := hadmits.append
    obtain ⟨hvalue, hdeclared⟩ := hfirst hvalid.1 hfirstTokens hfirstAdmits
    obtain ⟨hoperations, hmoreDeclared⟩ := hmore hvalid.2 hmoreTokens hmoreAdmits
    exact ⟨Expr.readable_operate hvalue hoperations,
      List.forall_mem_append.mpr ⟨hdeclared, hmoreDeclared⟩⟩
  | noOperation => exact ⟨nofun, nofun⟩
  | operation sign right more hright hmore =>
    obtain ⟨hrightTokens, hmoreTokens⟩ := comparing_append (comparing_cons hcomparing)
    obtain ⟨hrightAdmits, hmoreAdmits⟩ := hadmits.append
    obtain ⟨hvalue, hdeclared⟩ := hright hvalid.1 hrightTokens hrightAdmits
    obtain ⟨hoperations, hmoreDeclared⟩ := hmore hvalid.2 hmoreTokens hmoreAdmits
    exact ⟨List.forall_mem_cons.mpr ⟨⟨sign.property.2, hvalue⟩, hoperations⟩,
      List.forall_mem_append.mpr ⟨hdeclared, hmoreDeclared⟩⟩
  | paren opening inner closing hinner =>
    exact hinner hvalid (comparing_append (comparing_cons hcomparing)).1 hadmits
  | negation minus right hright =>
    obtain ⟨hvalue, hdeclared⟩ := hright hvalid (comparing_cons hcomparing) hadmits
    exact ⟨Expr.readable_binary _ rfl (Expr.readable_number _ _) hvalue, hdeclared⟩
  | number token => exact ⟨Expr.readable_number _ _, nofun⟩
  | string token => exact ⟨Expr.readable_text _ _, nofun⟩
  | access name => exact ⟨Expr.readable_access _ _, nofun⟩
  | call name opening args closing hargs =>
    obtain ⟨hvalues, hdeclared⟩ := hargs hvalid.1
      (comparing_append (comparing_cons (comparing_cons hcomparing))).1 hadmits
    refine ⟨?_, hdeclared⟩
    by_cases hbuiltin : scope.declarations.builtins.contains name.val.text = true
    · rw [value, if_pos hbuiltin]
      exact Expr.readable_builtinCall _ hbuiltin hvalues
    · have hcallable : callable name.val.text := by
        rcases hvalid.2 with hfunction | hdeclaring
        · rw [Declarations.isFunction, Bool.or_eq_true] at hfunction
          exact hadmits.functions _ (hfunction.resolve_left hbuiltin)
        · exact hadmits.declaring _ hdeclaring
      rw [value, if_neg hbuiltin]
      exact Expr.readable_userCall _ (Bool.not_eq_true _ ▸ hbuiltin) hcallable hvalues
  | letIn word bound inWord body hbound hbody =>
    obtain ⟨hboundTokens, hbehind⟩ := comparing_append (comparing_cons hcomparing)
    obtain ⟨hboundAdmits, hbodyAdmits⟩ := hadmits.append
    obtain ⟨hvalue, hdeclared⟩ := hbound hvalid.1 hboundTokens hboundAdmits
    obtain ⟨hbodyValue, hbodyDeclared⟩ := hbody hvalid.2 (comparing_cons hbehind) hbodyAdmits
    exact ⟨Expr.readable_letIn _ _ hvalue hbodyValue,
      List.forall_mem_append.mpr ⟨hdeclared, hbodyDeclared⟩⟩
  | letGroup word arrow opening bindings closing inWord body hbindings hbody =>
    obtain ⟨hbindingsTokens, hbehind⟩ := comparing_append
      (comparing_cons (comparing_cons (comparing_cons hcomparing)))
    obtain ⟨hbindingsAdmits, hbodyAdmits⟩ := hadmits.append
    obtain ⟨hvalues, hdeclared⟩ := hbindings hvalid.1 hbindingsTokens hbindingsAdmits
    obtain ⟨hbodyValue, hbodyDeclared⟩ :=
      hbody hvalid.2 (comparing_cons (comparing_cons hbehind)) hbodyAdmits
    exact ⟨Expr.readable_letGroup _ hvalues hbodyValue,
      List.forall_mem_append.mpr ⟨hdeclared, hbodyDeclared⟩⟩
  | ifThenElse word opening left comparison right closing thenWord thenBranch elseWord elseBranch
      hleft hright hthen helse =>
    obtain ⟨hleftTokens, hbehindLeft⟩ :=
      comparing_append (comparing_cons (comparing_cons hcomparing))
    obtain ⟨hrightTokens, hbehindRight⟩ := comparing_append (comparing_cons hbehindLeft)
    obtain ⟨hthenTokens, hbehindThen⟩ :=
      comparing_append (comparing_cons (comparing_cons hbehindRight))
    obtain ⟨hleftAdmits, hmoreAdmits⟩ := hadmits.append
    obtain ⟨hrightAdmits, hbranchesAdmits⟩ := hmoreAdmits.append
    obtain ⟨hthenAdmits, helseAdmits⟩ := hbranchesAdmits.append
    obtain ⟨hleftValue, hleftDeclared⟩ := hleft hvalid.1 hleftTokens hleftAdmits
    obtain ⟨hrightValue, hrightDeclared⟩ := hright hvalid.2.1 hrightTokens hrightAdmits
    obtain ⟨hthenValue, hthenDeclared⟩ := hthen hvalid.2.2.1 hthenTokens hthenAdmits
    obtain ⟨helseValue, helseDeclared⟩ :=
      helse hvalid.2.2.2 (comparing_cons hbehindThen) helseAdmits
    have hop := hbehindLeft comparison.val List.mem_cons_self comparison.property
    exact ⟨Expr.readable_ifThenElse _ _ hop hleftValue hrightValue hthenValue helseValue,
      List.forall_mem_append.mpr ⟨hleftDeclared, List.forall_mem_append.mpr ⟨hrightDeclared,
        List.forall_mem_append.mpr ⟨hthenDeclared, helseDeclared⟩⟩⟩⟩
  | function word name parameters arrow body hbody =>
    have hbodyTokens := (comparing_append (comparing_cons (comparing_cons hcomparing))).2
    -- the body may call the function itself, because its declaration is among those made
    have hname : callable name.val.text :=
      hadmits.declared _ (List.mem_append_right _ List.mem_cons_self) _ (decide_eq_true rfl)
    have hinner : Admits { scope with declaring := some name.val.text }
        (body.declared scope.declarations.builtins) callable :=
      ⟨hadmits.functions, fun _ hdeclaring ↦ Option.some.inj hdeclaring ▸ hname,
        hadmits.append.1.declared⟩
    obtain ⟨hvalue, hdeclared⟩ := hbody hvalid.2.2.2 (comparing_cons hbodyTokens) hinner
    refine ⟨Expr.readable_endMarker _, List.forall_mem_append.mpr ⟨hdeclared, ?_⟩⟩
    exact List.forall_mem_singleton.mpr hvalue
  | const word bound hbound =>
    obtain ⟨hvalue, hdeclared⟩ := hbound hvalid (comparing_cons hcomparing) hadmits.append.1
    refine ⟨Expr.readable_endMarker _, List.forall_mem_append.mpr ⟨hdeclared, ?_⟩⟩
    exact List.forall_mem_singleton.mpr hvalue
  | print word opening inner closing hinner =>
    obtain ⟨-, hdeclared⟩ := hinner hvalid
      (comparing_append (comparing_cons (comparing_cons hcomparing))).1 hadmits
    exact ⟨Expr.readable_endMarker _, hdeclared⟩
  | binding name equals value hvalue =>
    exact hvalue hvalid (comparing_cons (comparing_cons hcomparing)) hadmits
  | noItems => exact ⟨nofun, nofun⟩
  | items first more hfirst hmore =>
    obtain ⟨hfirstTokens, hmoreTokens⟩ := comparing_append hcomparing
    obtain ⟨hfirstAdmits, hmoreAdmits⟩ := hadmits.append
    obtain ⟨hvalue, hdeclared⟩ := hfirst hvalid.1 hfirstTokens hfirstAdmits
    obtain ⟨hvalues, hmoreDeclared⟩ := hmore hvalid.2 hmoreTokens hmoreAdmits
    exact ⟨List.forall_mem_cons.mpr ⟨hvalue, hvalues⟩,
      List.forall_mem_append.mpr ⟨hdeclared, hmoreDeclared⟩⟩
  | noMoreItems => exact ⟨nofun, nofun⟩
  | moreItems comma first more hfirst hmore =>
    obtain ⟨hfirstTokens, hmoreTokens⟩ := comparing_append (comparing_cons hcomparing)
    obtain ⟨hfirstAdmits, hmoreAdmits⟩ := hadmits.append
    obtain ⟨hvalue, hdeclared⟩ := hfirst hvalid.1 hfirstTokens hfirstAdmits
    obtain ⟨hvalues, hmoreDeclared⟩ := hmore hvalid.2 hmoreTokens hmoreAdmits
    exact ⟨List.forall_mem_cons.mpr ⟨hvalue, hvalues⟩,
      List.forall_mem_append.mpr ⟨hdeclared, hmoreDeclared⟩⟩

end ParseTree

end Reckoner
