import Reckoner.Proofs.Declarations.Names
import Reckoner.Proofs.Grammar.Readable
import Reckoner.Proofs.Grammar.Refusal
import Reckoner.Proofs.Grammar.StatementTree
import Reckoner.Session

/-!
Functions that are declared again. A tree in order declares free names only, and no name
twice, unless one declaration of the name stands inside the body of another: the outer name
is not taken yet when the inner one is read. Where any other name is taken, reading fails at
that name.
-/

set_option autoImplicit false
set_option relaxedAutoImplicit false

namespace Reckoner

open Declaration

namespace ParseTree

variable {builtins : NameMap Builtin}

/-- Whether no function is declared inside the body of one of the same name. -/
def Unnested (builtins : NameMap Builtin) : {phrase : Phrase} → ParseTree phrase → Prop
  | _, chain _ first more => first.Unnested builtins ∧ more.Unnested builtins
  | _, noOperation => True
  | _, operation _ right more => right.Unnested builtins ∧ more.Unnested builtins
  | _, paren _ inner _ => inner.Unnested builtins
  | _, negation _ right => right.Unnested builtins
  | _, number _ => True
  | _, string _ => True
  | _, access _ => True
  | _, call _ _ args _ => args.Unnested builtins
  | _, letIn _ bound _ body => bound.Unnested builtins ∧ body.Unnested builtins
  | _, letGroup _ _ _ bindings _ _ body => bindings.Unnested builtins ∧ body.Unnested builtins
  | _, ifThenElse _ _ left _ right _ _ thenBranch _ elseBranch =>
    left.Unnested builtins ∧ right.Unnested builtins ∧ thenBranch.Unnested builtins ∧
      elseBranch.Unnested builtins
  | _, function _ name _ _ body =>
    name.val.text ∉ functionNames (body.declared builtins) ∧ body.Unnested builtins
  | _, const _ bound => bound.Unnested builtins
  | _, print _ _ inner _ => inner.Unnested builtins
  | _, binding _ _ value => value.Unnested builtins
  | _, noItems => True
  | _, items first more => first.Unnested builtins ∧ more.Unnested builtins
  | _, noMoreItems => True
  | _, moreItems _ first more => first.Unnested builtins ∧ more.Unnested builtins

/-- The names that a tree in order declares are none of those declared before it. -/
theorem not_mem_functionNames {phrase : Phrase} (tree : ParseTree phrase) {scope : Scope}
    {before : List Declaration} (hvalid : tree.Valid scope before) :
    ∀ name ∈ functionNames (tree.declared scope.declarations.builtins),
      name ∉ functionNames before := by
  induction tree generalizing scope before with
  | function word name parameters arrow body hbody =>
    have hinner := hbody hvalid.2.2.2
    rw [declared, functionNames_append, functionNames_function]
    refine List.forall_mem_append.mpr ⟨hinner, List.forall_mem_singleton.mpr ?_⟩
    rw [mem_functionNames]
    rintro ⟨declaration, hmem, hname⟩
    rw [hvalid.2.1 declaration hmem] at hname
    cases hname
  | _ =>
    simp only [declared, Valid, functionNames_append, functionNames_nil, functionNames_constant,
      List.append_nil, List.mem_append, List.not_mem_nil] at *
    grind [functionNames_append]

/-- Parts that follow each other declare different names. -/
theorem nodup_append_iff {first more before : List Declaration} {left right : Prop}
    (hleft : (functionNames first).Nodup ↔ left) (hright : (functionNames more).Nodup ↔ right)
    (hfresh : ∀ name ∈ functionNames more, name ∉ functionNames (before ++ first)) :
    (functionNames (first ++ more)).Nodup ↔ left ∧ right := by
  rw [functionNames_append] at hfresh
  rw [functionNames_append, List.nodup_append, hleft, hright, ← and_assoc, and_iff_left]
  rintro name hname other hother rfl
  exact hfresh name hother (List.mem_append_right _ hname)

theorem not_mem_append {first more before : List Declaration}
    (hfirst : ∀ name ∈ functionNames first, name ∉ functionNames before)
    (hmore : ∀ name ∈ functionNames more, name ∉ functionNames (before ++ first)) :
    ∀ name ∈ functionNames (first ++ more), name ∉ functionNames before := by
  rw [functionNames_append] at hmore ⊢
  exact List.forall_mem_append.mpr
    ⟨hfirst, fun name hname hbefore ↦ hmore name hname (List.mem_append_left _ hbefore)⟩

/-- The names that a tree in order declares differ, unless declarations of one name stand
inside each other. -/
theorem nodup_functionNames_iff {phrase : Phrase} (tree : ParseTree phrase) {scope : Scope}
    {before : List Declaration} (hvalid : tree.Valid scope before) :
    (functionNames (tree.declared scope.declarations.builtins)).Nodup ↔
      tree.Unnested scope.declarations.builtins := by
  induction tree generalizing scope before with
  | chain loose first more hfirst hmore =>
    exact nodup_append_iff (hfirst hvalid.1) (hmore hvalid.2) (more.not_mem_functionNames hvalid.2)
  | operation sign right more hright hmore =>
    exact nodup_append_iff (hright hvalid.1) (hmore hvalid.2) (more.not_mem_functionNames hvalid.2)
  | letIn word bound inWord body hbound hbody =>
    exact nodup_append_iff (hbound hvalid.1) (hbody hvalid.2) (body.not_mem_functionNames hvalid.2)
  | letGroup word arrow opening bindings closing inWord body hbindings hbody =>
    exact nodup_append_iff (hbindings hvalid.1) (hbody hvalid.2)
      (body.not_mem_functionNames hvalid.2)
  | ifThenElse word opening left comparison right closing thenWord thenBranch elseWord elseBranch
      hleft hright hthen helse =>
    obtain ⟨hleftValid, hrightValid, hthenValid, helseValid⟩ := hvalid
    have hbranchesFresh := not_mem_append (thenBranch.not_mem_functionNames hthenValid)
      (elseBranch.not_mem_functionNames helseValid)
    have hmoreFresh := not_mem_append (right.not_mem_functionNames hrightValid) hbranchesFresh
    have hbranches := nodup_append_iff (hthen hthenValid) (helse helseValid)
      (elseBranch.not_mem_functionNames helseValid)
    have hmore := nodup_append_iff (hright hrightValid) hbranches hbranchesFresh
    exact nodup_append_iff (hleft hleftValid) hmore hmoreFresh
  | function word name parameters arrow body hbody =>
    rw [declared, functionNames_append, functionNames_function, List.nodup_append_comm,
      List.singleton_append, List.nodup_cons]
    have hinner := hbody hvalid.2.2.2
    exact and_congr_right' hinner
  | call name opening args closing hargs => exact hargs hvalid.1
  | items first more hfirst hmore =>
    exact nodup_append_iff (hfirst hvalid.1) (hmore hvalid.2) (more.not_mem_functionNames hvalid.2)
  | moreItems comma first more hfirst hmore =>
    exact nodup_append_iff (hfirst hvalid.1) (hmore hvalid.2) (more.not_mem_functionNames hvalid.2)
  | const word bound hbound =>
    rw [declared, functionNames_append, functionNames_constant, List.append_nil]
    exact hbound hvalid
  | paren opening inner closing hinner => exact hinner hvalid
  | negation minus right hright => exact hright hvalid
  | print word opening inner closing hinner => exact hinner hvalid
  | binding name equals value hvalue => exact hvalue hvalid
  | _ => exact iff_of_true List.nodup_nil trivial

/-- There is one declared name for each word that starts a function. -/
theorem length_functionNames {phrase : Phrase} (tree : ParseTree phrase) :
    (functionNames (tree.declared builtins)).length =
      tree.tokens.countP (·.kind = .functionWord) := by
  have hof {kind : TokenKind} (token : TokenOf kind) : token.val.kind = kind := token.property
  have hparameters (parameters : List (TokenOf .parameter)) :
      (parameters.map (·.val)).countP (·.kind = .functionWord) = 0 := by
    rw [List.countP_eq_zero]
    intro token htoken
    obtain ⟨parameter, -, rfl⟩ := List.mem_map.mp htoken
    simp [hof parameter]
  induction tree with
  | operation sign right more hright hmore =>
    simp [declared, tokens, sign.property.1, hright, hmore]
  | negation minus right hright => simp [declared, tokens, minus.property.1, hright]
  | binding name equals value hvalue => simp [declared, tokens, equals.property.1, hof, hvalue]
  | function word name parameters arrow body hbody =>
    rw [declared, tokens, functionNames_append, List.length_append, hbody, List.countP_cons,
      List.countP_cons, List.countP_append, List.countP_cons, hparameters]
    simp [hof]
  | _ => simp [declared, tokens, *]

end ParseTree

namespace Statement

/-- Reading a statement fails at a function name that is taken, unless the limit on nesting is
in the way. -/
theorem ofTokens_of_clashes {declarations : Declarations} {tree : ParseTree (.expression .sum)}
    {rest : List Token} {name : Token} (hclash : tree.Clashes ⟨declarations, none⟩ [] name)
    (hgreedy : tree.Greedy rest) (hstops : (Phrase.expression .sum).StopsBefore rest)
    (limit : Nat) :
    ofTokens limit declarations (tree.tokens ++ rest) = .error .tooDeep ∨
      ofTokens limit declarations (tree.tokens ++ rest) =
        .error (.error ⟨.functionExists, name⟩) := by
  have hlength := tree.nesting_add_looser_le
  simp only [Phrase.looser] at hlength
  have hnesting : tree.nesting ≤ max limit (4 * tree.tokens.length) := by omega
  have hrefuses := Reader.refusing_expression _ .sum ⟨declarations, none⟩ tree [] rest name hnesting
    hclash hgreedy hstops.1 hstops.2
  have hreader : (reader (max limit (4 * tree.tokens.length)) declarations).Refuses
      ⟨tree.tokens ++ rest, []⟩ name := hrefuses.bind _
  have hunder := ofTokens_under (Nat.le_max_left limit (4 * tree.tokens.length)) declarations
    (tree.tokens ++ rest)
  refine hunder.imp_right fun hsame ↦ ?_
  rw [hsame, ofTokens, hreader]
  rfl

/-- The functions that a statement declares have names that were free. They differ, and there
are as many more functions afterwards as words that start a declaration, unless one of a name
stands inside the body of another of that name: then a declaration is lost, and only then. At
any other name that is taken the reading fails. -/
theorem declared_functions (declarations : Declarations) (tokens : List Token) :
    (∀ limit statement, ofTokens limit declarations tokens = .ok statement →
      ∃ tree : StatementTree, tree.Derives declarations tokens ∧
        tree.statement declarations.builtins = statement ∧
        let names := functionNames statement.declared
        let after := declarations.declareAll statement.declared
        names.length = tree.expr.tokens.countP (·.kind = .functionWord) ∧
          (∀ name ∈ names, declarations.isFunction name = false) ∧
          (names.Nodup ↔ tree.expr.Unnested declarations.builtins) ∧
          (after.functions.entries.length =
              declarations.functions.entries.length + names.length ↔
            tree.expr.Unnested declarations.builtins)) ∧
    ∀ (tree : ParseTree (.expression .sum)) rest name, tokens = tree.tokens ++ rest →
      tree.Greedy rest → (Phrase.expression .sum).StopsBefore rest →
        tree.Clashes ⟨declarations, none⟩ [] name → ∀ limit,
          ofTokens limit declarations tokens = .error .tooDeep ∨
            ofTokens limit declarations tokens = .error (.error ⟨.functionExists, name⟩) := by
  constructor
  · intro limit statement h
    obtain ⟨tree, hderives, rfl⟩ := exists_derives_of_ofTokens h
    have hfree : ∀ name ∈ functionNames (tree.expr.declared declarations.builtins),
        declarations.isFunction name = false := by
      intro name hname
      obtain ⟨declaration, hmem, hdeclares⟩ := mem_functionNames.mp hname
      exact tree.expr.isFunction_of_declared hderives.valid declaration hmem name hdeclares
    have hnodup : (functionNames (tree.expr.declared declarations.builtins)).Nodup ↔
        tree.expr.Unnested declarations.builtins :=
      tree.expr.nodup_functionNames_iff hderives.valid
    refine ⟨tree, hderives, rfl, tree.expr.length_functionNames, hfree, hnodup, ?_⟩
    have hcount := declarations.length_functions_declareAll
      (tree.expr.declared declarations.builtins) fun name hname ↦
        (Bool.or_eq_false_iff.mp (hfree name hname)).2
    dsimp only [StatementTree.statement]
    rw [← hnodup, hcount, Nat.add_left_cancel_iff]
    exact Multiset.toFinset_card_eq_card_iff_nodup
  · rintro tree rest name rfl hgreedy hstops hclash limit
    exact ofTokens_of_clashes hclash hgreedy hstops limit

/-- A function that is declared inside its own body: one name for two declarations. -/
theorem declared_functions_of_nested :
    (tokenize nestingLimit "function f() => function f() => 1").bind (fun tokens ↦
      .ok ((ofTokens nestingLimit Session.standard.declarations tokens).map fun statement ↦
        (functionNames statement.declared, (Session.standard.declarations.declareAll
          statement.declared).functions.entries.map (·.1)))) = .ok (.ok (["f", "f"], ["f"])) := by
  decide +kernel

end Statement

end Reckoner
