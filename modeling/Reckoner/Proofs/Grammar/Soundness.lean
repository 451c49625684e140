import Reckoner.Proofs.Grammar.Reading

/-!
Whatever is read has a tree. The loops for operations and items are followed by induction on
their bounds, the forms step by step, and expressions by induction on the nesting that is
allowed; each time the trees of the parts are put together.
-/

set_option autoImplicit false
set_option relaxedAutoImplicit false

namespace Reckoner

/-- Nothing carries on an operand. -/
theorem Level.endsBefore_operand (rest : List Token) : Level.operand.EndsBefore rest :=
  fun _ _ _ ↦ List.not_mem_nil

/-- Trees that fit one behind the other, with tokens in between that belong to neither. -/
theorem ParseTree.Fits.followed {phrase phrase' : Phrase} {first : ParseTree phrase}
    {more : ParseTree phrase'} {scope : Scope} {row middle after : TokenRow}
    (between : List Token)
    (hfirst : first.Fits scope row ⟨between ++ middle.rest, middle.staged⟩)
    (hmore : more.Fits scope middle after) :
    row.rest = first.tokens ++ (between ++ (more.tokens ++ after.rest)) ∧
      after.staged = row.staged ++ (first.declared scope.declarations.builtins ++
        more.declared scope.declarations.builtins) ∧
      (first.Valid scope row.staged ∧
        more.Valid scope (row.staged ++ first.declared scope.declarations.builtins)) ∧
      first.Greedy (between ++ (more.tokens ++ after.rest)) ∧ more.Greedy after.rest := by
  have htokens : row.rest = first.tokens ++ (between ++ middle.rest) := hfirst.tokens
  have hstaged : middle.staged = row.staged ++ first.declared scope.declarations.builtins :=
    hfirst.staged
  have hgreedy : first.Greedy (between ++ middle.rest) := hfirst.greedy
  have hvalid := hmore.valid
  rw [hmore.tokens] at htokens hgreedy
  rw [hstaged] at hvalid
  refine ⟨htokens, ?_, ⟨hfirst.valid, hvalid⟩, hgreedy, hmore.greedy⟩
  rw [hmore.staged, hstaged, List.append_assoc]

namespace Reader

/-- Whatever the reader reads has a tree of the phrase, with at most the given nesting. -/
def Sound (scope : Scope) (depth : Nat) (phrase : Phrase) (reader : Reader phrase.Value) : Prop :=
  ∀ row value after, reader.run row = .ok (value, after) →
    ∃ tree : ParseTree phrase, tree.value scope.declarations.builtins = value ∧
      tree.Fits scope row after ∧ tree.nesting ≤ depth

variable {scope : Scope} {depth : Nat}

/-- What is read takes nothing but tokens off the row. -/
theorem Sound.length_le {phrase : Phrase} {reader : Reader phrase.Value}
    (hsound : Sound scope depth phrase reader) {row after : TokenRow} {value : phrase.Value}
    (h : reader.run row = .ok (value, after)) : after.rest.length ≤ row.rest.length := by
  obtain ⟨tree, -, hfits, -⟩ := hsound row value after h
  rw [hfits.tokens, List.length_append]
  omega

theorem sound_operationsWithin {level : Level} {operand : Reader Expr}
    (hoperand : Sound scope depth (.expression level.tighter) operand) {bound : List Token}
    {left value : Expr} {row after : TokenRow} (hbound : row.rest.length ≤ bound.length)
    (hends : level.tighter.EndsBefore row.rest)
    (h : (operationsWithin level.joins operand bound left).run row = .ok (value, after)) :
    ∃ tree : ParseTree (.operations level),
      left.operate (tree.value scope.declarations.builtins) = value ∧
        tree.Fits scope row after ∧ tree.nesting ≤ depth := by
  induction bound generalizing left row with
  | nil =>
    obtain ⟨rfl, rfl⟩ := run_pure_eq_ok.mp h
    have hnil : row.rest = [] := List.length_eq_zero_iff.mp (Nat.le_zero.mp hbound)
    refine ⟨.noOperation, rfl, ⟨rfl, by simp [ParseTree.declared], trivial, trivial, ?_⟩,
      Nat.zero_le _⟩
    intro token htoken
    simp [hnil] at htoken
  | cons bounding bound ih =>
    rw [operationsWithin, run_bind_eq_ok] at h
    obtain ⟨found, middle, hfound, h⟩ := h
    cases found with
    | none =>
      obtain ⟨rfl, hnone⟩ := acceptOperator_eq_none hfound
      obtain ⟨rfl, rfl⟩ := run_pure_eq_ok.mp h
      refine ⟨.noOperation, rfl, ⟨rfl, by simp [ParseTree.declared], trivial, trivial, ?_⟩,
        Nat.zero_le _⟩
      intro token htoken hkind hmem
      rcases (level.mem_reach _).mp hmem with hsign | htighter
      · exact hnone token htoken hkind hsign
      · exact hends token htoken hkind htighter
    | some token =>
      obtain ⟨sign, rfl, rfl⟩ := acceptOperator_eq_some hfound
      rw [run_bind_eq_ok] at h
      obtain ⟨right, behind, hright, h⟩ := h
      have hlength := hoperand.length_le hright
      simp only [List.length_cons] at hbound
      obtain ⟨rightTree, rfl, hrightFits, hrightNesting⟩ := hoperand _ _ _ hright
      obtain ⟨more, rfl, hmoreFits, hmoreNesting⟩ := ih (by omega) hrightFits.ends h
      obtain ⟨htokens, hstaged, hvalid, hgreedy⟩ := hrightFits.followed [] hmoreFits
      refine ⟨.operation sign rightTree more, rfl,
        ⟨?_, hstaged, hvalid, hgreedy, hmoreFits.ends⟩,
        Nat.max_le.mpr ⟨hrightNesting, hmoreNesting⟩⟩
      rw [ParseTree.tokens, List.cons_append, List.append_assoc]
      exact congrArg _ htokens

theorem sound_operations {level : Level} (loose : level ≠ .operand) {operand : Reader Expr}
    (hoperand : Sound scope depth (.expression level.tighter) operand) :
    Sound scope (depth + 1) (.expression level) (operations level.joins operand) := by
  intro row value after h
  rw [operations, run_bind_eq_ok] at h
  obtain ⟨first, middle, hfirst, h⟩ := h
  obtain ⟨firstTree, rfl, hfirstFits, hfirstNesting⟩ := hoperand _ _ _ hfirst
  rw [run_bind_of_ok (run_get middle)] at h
  obtain ⟨more, rfl, hmoreFits, hmoreNesting⟩ :=
    sound_operationsWithin hoperand Nat.le.refl hfirstFits.ends h
  obtain ⟨htokens, hstaged, hvalid, hgreedy⟩ := hfirstFits.followed [] hmoreFits
  refine ⟨.chain loose firstTree more, rfl, ⟨?_, hstaged, hvalid, hgreedy, hmoreFits.ends⟩,
    Nat.succ_le_succ (Nat.max_le.mpr ⟨hfirstNesting, hmoreNesting⟩)⟩
  rw [ParseTree.tokens, List.append_assoc]
  exact htokens

/-- Behind the first of several items there are more of them, up to the closing token. -/
theorem sound_moreItems {item : Phrase} {close : TokenKind} (hclose : close ≠ .eof)
    {reader : Reader item.Value} (hitem : Sound scope depth item reader) {bound : List Token}
    {row after : TokenRow} {values : List item.Value}
    (h : (itemsWithin close reader bound true).run row = .ok (values, after)) :
    ∃ (tree : ParseTree (.moreItems item)) (closing : TokenOf close),
      tree.value scope.declarations.builtins = values ∧
        tree.Fits scope row ⟨closing.val :: after.rest, after.staged⟩ ∧ tree.nesting ≤ depth := by
  induction bound generalizing row values with
  | nil =>
    rw [itemsWithin, run_bind_eq_ok] at h
    obtain ⟨closing, middle, hclosing, h⟩ := h
    obtain ⟨hkind, rfl⟩ := (expect_eq_ok hclose).mp hclosing
    obtain ⟨rfl, rfl⟩ := run_pure_eq_ok.mp h
    exact ⟨.noMoreItems, ⟨closing, hkind⟩, rfl,
      ⟨rfl, by simp [ParseTree.declared], trivial, trivial, trivial⟩, Nat.zero_le _⟩
  | cons bounding bound ih =>
    rw [itemsWithin, run_bind_eq_ok] at h
    obtain ⟨closed, middle, hclosed, h⟩ := h
    cases closed with
    | true =>
      obtain ⟨closing, rfl⟩ := accept_eq_true hclose hclosed
      obtain ⟨rfl, rfl⟩ := run_pure_eq_ok.mp h
      exact ⟨.noMoreItems, closing, rfl,
        ⟨rfl, by simp [ParseTree.declared], trivial, trivial, trivial⟩, Nat.zero_le _⟩
    | false =>
      obtain ⟨rfl, -⟩ := accept_eq_false hclosed
      simp only [Bool.false_eq_true, if_false, if_true] at h
      rw [run_bind_eq_ok] at h
      obtain ⟨comma, behindComma, hcomma, h⟩ := h
      obtain ⟨hkind, rfl⟩ := (expect_eq_ok (by decide)).mp hcomma
      rw [run_bind_eq_ok] at h
      obtain ⟨first, behindFirst, hfirst, h⟩ := h
      rw [run_bind_eq_ok] at h
      obtain ⟨others, behindOthers, hothers, h⟩ := h
      obtain ⟨rfl, rfl⟩ := run_pure_eq_ok.mp h
      obtain ⟨firstTree, rfl, hfirstFits, hfirstNesting⟩ := hitem _ _ _ hfirst
      obtain ⟨more, closing, rfl, hmoreFits, hmoreNesting⟩ := ih hothers
      obtain ⟨htokens, hstaged, hvalid, hgreedy⟩ := hfirstFits.followed [] hmoreFits
      refine ⟨.moreItems ⟨comma, hkind⟩ firstTree more, closing, rfl,
        ⟨?_, hstaged, hvalid, hgreedy, trivial⟩,
        Nat.max_le.mpr ⟨hfirstNesting, hmoreNesting⟩⟩
      rw [ParseTree.tokens, List.cons_append, List.append_assoc]
      exact congrArg _ htokens

theorem sound_items {item : Phrase} {close : TokenKind} (hclose : close ≠ .eof)
    {reader : Reader item.Value} (hitem : Sound scope depth item reader)
    {row after : TokenRow} {values : List item.Value}
    (h : (items close reader).run row = .ok (values, after)) :
    ∃ (tree : ParseTree (.items item)) (closing : TokenOf close),
      tree.value scope.declarations.builtins = values ∧
        tree.Fits scope row ⟨closing.val :: after.rest, after.staged⟩ ∧ tree.nesting ≤ depth := by
  rw [items, run_bind_of_ok (run_get row)] at h
  cases hbound : row.rest with
  | nil =>
    rw [hbound, itemsWithin, run_bind_eq_ok] at h
    obtain ⟨closing, middle, hclosing, h⟩ := h
    obtain ⟨-, rfl⟩ := (expect_eq_ok hclose).mp hclosing
    cases hbound
  | cons bounding bound =>
    rw [hbound, itemsWithin, run_bind_eq_ok] at h
    obtain ⟨closed, middle, hclosed, h⟩ := h
    cases closed with
    | true =>
      obtain ⟨closing, rfl⟩ := accept_eq_true hclose hclosed
      obtain ⟨rfl, rfl⟩ := run_pure_eq_ok.mp h
      exact ⟨.noItems, closing, rfl,
        ⟨rfl, by simp [ParseTree.declared], trivial, trivial, trivial⟩, Nat.zero_le _⟩
    | false =>
      obtain ⟨rfl, -⟩ := accept_eq_false hclosed
      simp only [Bool.false_eq_true, if_false] at h
      rw [run_bind_eq_ok] at h
      obtain ⟨first, behindFirst, hfirst, h⟩ := h
      rw [run_bind_eq_ok] at h
      obtain ⟨others, behindOthers, hothers, h⟩ := h
      obtain ⟨rfl, rfl⟩ := run_pure_eq_ok.mp h
      obtain ⟨firstTree, rfl, hfirstFits, hfirstNesting⟩ := hitem _ _ _ hfirst
      obtain ⟨more, closing, rfl, hmoreFits, hmoreNesting⟩ := sound_moreItems hclose hitem hothers
      obtain ⟨htokens, hstaged, hvalid, hgreedy⟩ := hfirstFits.followed [] hmoreFits
      refine ⟨.items firstTree more, closing, rfl, ⟨?_, hstaged, hvalid, hgreedy, trivial⟩,
        Nat.max_le.mpr ⟨hfirstNesting, hmoreNesting⟩⟩
      rw [ParseTree.tokens, List.append_assoc]
      exact htokens

theorem sound_binding {expr : Reader Expr} (hexpr : Sound scope depth (.expression .sum) expr) :
    Sound scope depth .binding (binding expr) := by
  intro row value after h
  rw [binding, run_bind_eq_ok] at h
  obtain ⟨name, behindName, hname, h⟩ := h
  obtain ⟨hkind, rfl⟩ := (expect_eq_ok (by decide)).mp hname
  rw [run_bind_eq_ok] at h
  obtain ⟨_, behindEquals, hequals, h⟩ := h
  obtain ⟨equals, rfl⟩ := expectEquals_eq_ok hequals
  rw [run_bind_eq_ok] at h
  obtain ⟨bound, behind, hbound, h⟩ := h
  obtain ⟨rfl, rfl⟩ := run_pure_eq_ok.mp h
  obtain ⟨tree, rfl, hfits, hnesting⟩ := hexpr _ _ _ hbound
  exact ⟨.binding ⟨name, hkind⟩ equals tree, rfl,
    ⟨by simp [ParseTree.tokens, hfits.tokens], hfits.staged, hfits.valid, hfits.greedy, hfits.ends⟩,
    hnesting⟩

theorem sound_paren {expr : Reader Expr} (hexpr : Sound scope depth (.expression .sum) expr)
    (opening : TokenOf .leftParen) {row after : TokenRow} {value : Expr}
    (h : (do let inner ← expr; let _ ← expect .rightParen; return inner : Reader Expr).run row =
      .ok (value, after)) :
    ∃ tree : ParseTree (.expression .operand), tree.value scope.declarations.builtins = value ∧
      tree.Fits scope ⟨opening.val :: row.rest, row.staged⟩ after ∧ tree.nesting ≤ depth + 1 := by
  rw [run_bind_eq_ok] at h
  obtain ⟨inner, behindInner, hinner, h⟩ := h
  rw [run_bind_eq_ok] at h
  obtain ⟨closing, behind, hclosing, h⟩ := h
  obtain ⟨hkind, rfl⟩ := (expect_eq_ok (by decide)).mp hclosing
  obtain ⟨rfl, rfl⟩ := run_pure_eq_ok.mp h
  obtain ⟨tree, rfl, hfits, hnesting⟩ := hexpr _ _ _ hinner
  exact ⟨.paren opening tree ⟨closing, hkind⟩, rfl,
    ⟨by simp [ParseTree.tokens, hfits.tokens], hfits.staged, hfits.valid, hfits.greedy,
      Level.endsBefore_operand _⟩, Nat.succ_le_succ hnesting⟩

theorem sound_call {expr : Reader Expr} (hexpr : Sound scope depth (.expression .sum) expr)
    (name : TokenOf .identifier) (opening : TokenOf .leftParen) {rest : List Token}
    {staged : List Declaration} {after : TokenRow} {value : Expr}
    (h : (call expr scope name.val).run ⟨opening.val :: rest, staged⟩ = .ok (value, after)) :
    ∃ tree : ParseTree (.expression .operand), tree.value scope.declarations.builtins = value ∧
      tree.Fits scope ⟨name.val :: opening.val :: rest, staged⟩ after ∧
        tree.nesting ≤ depth + 1 := by
  rw [call, run_bind_of_ok (run_skip _ _ _), run_bind_eq_ok] at h
  obtain ⟨args, behindArgs, hargs, h⟩ := h
  obtain ⟨tree, closing, rfl, hfits, hnesting⟩ := sound_items (by decide) hexpr hargs
  have htokens : rest = _ := hfits.tokens
  have hcall (hscope : scope.declarations.isFunction name.val.text = true ∨
      scope.declaring = some name.val.text) :
      (ParseTree.call name opening tree closing).Fits scope
        ⟨name.val :: opening.val :: rest, staged⟩ behindArgs :=
    ⟨by simp [ParseTree.tokens, htokens], hfits.staged, ⟨hfits.valid, hscope⟩, hfits.greedy,
      Level.endsBefore_operand _⟩
  refine ⟨.call name opening tree closing, ?_⟩
  split at h
  · next hbuiltin =>
    obtain ⟨rfl, rfl⟩ := run_pure_eq_ok.mp h
    have hscope : scope.declarations.isFunction name.val.text = true := by
      simp [Declarations.isFunction, hbuiltin]
    exact ⟨by simp [ParseTree.value, hbuiltin], hcall (.inl hscope), Nat.succ_le_succ hnesting⟩
  · next hbuiltin =>
    split at h
    · next hscope =>
      obtain ⟨rfl, rfl⟩ := run_pure_eq_ok.mp h
      exact ⟨by simp [ParseTree.value, hbuiltin], hcall hscope, Nat.succ_le_succ hnesting⟩
    · cases h

theorem sound_letForm {expr : Reader Expr} (hexpr : Sound scope depth (.expression .sum) expr)
    (word : TokenOf .letWord) {row after : TokenRow} {value : Expr}
    (h : (letForm expr word.val.pos).run row = .ok (value, after)) :
    ∃ tree : ParseTree (.expression .operand), tree.value scope.declarations.builtins = value ∧
      tree.Fits scope ⟨word.val :: row.rest, row.staged⟩ after ∧ tree.nesting ≤ depth + 1 := by
  rw [letForm, run_bind_eq_ok] at h
  obtain ⟨grouped, behindArrow, harrow, h⟩ := h
  cases grouped with
  | true =>
    obtain ⟨arrow, rfl⟩ := accept_eq_true (by decide) harrow
    simp only [if_true] at h
    rw [run_bind_eq_ok] at h
    obtain ⟨opening, behindOpening, hopening, h⟩ := h
    obtain ⟨hopeningKind, rfl⟩ := (expect_eq_ok (by decide)).mp hopening
    rw [run_bind_eq_ok] at h
    obtain ⟨bindings, behindBindings, hbindings, h⟩ := h
    rw [run_bind_eq_ok] at h
    obtain ⟨inWord, behindIn, hin, h⟩ := h
    obtain ⟨hinKind, rfl⟩ := (expect_eq_ok (by decide)).mp hin
    rw [run_bind_eq_ok] at h
    obtain ⟨body, behind, hbody, h⟩ := h
    obtain ⟨rfl, rfl⟩ := run_pure_eq_ok.mp h
    obtain ⟨tree, closing, rfl, hfits, hnesting⟩ :=
      sound_items (by decide) (sound_binding hexpr) hbindings
    obtain ⟨bodyTree, rfl, hbodyFits, hbodyNesting⟩ := hexpr _ _ _ hbody
    obtain ⟨htokens, hstaged, hvalid, hgreedy⟩ := hfits.followed [closing.val, inWord] hbodyFits
    refine ⟨.letGroup word arrow ⟨opening, hopeningKind⟩ tree closing ⟨inWord, hinKind⟩ bodyTree,
      rfl, ⟨?_, hstaged, hvalid, ⟨hgreedy.1, hgreedy.2, hbodyFits.ends⟩,
        Level.endsBefore_operand _⟩,
      Nat.succ_le_succ (Nat.max_le.mpr ⟨hnesting, hbodyNesting⟩)⟩
    simp [ParseTree.tokens, htokens]
  | false =>
    obtain ⟨rfl, -⟩ := accept_eq_false harrow
    simp only [Bool.false_eq_true, if_false] at h
    rw [run_bind_eq_ok] at h
    obtain ⟨bound, behindBound, hbound, h⟩ := h
    rw [run_bind_eq_ok] at h
    obtain ⟨inWord, behindIn, hin, h⟩ := h
    obtain ⟨hinKind, rfl⟩ := (expect_eq_ok (by decide)).mp hin
    rw [run_bind_eq_ok] at h
    obtain ⟨body, behind, hbody, h⟩ := h
    obtain ⟨rfl, rfl⟩ := run_pure_eq_ok.mp h
    obtain ⟨tree, rfl, hfits, hnesting⟩ := sound_binding hexpr _ _ _ hbound
    obtain ⟨bodyTree, rfl, hbodyFits, hbodyNesting⟩ := hexpr _ _ _ hbody
    obtain ⟨htokens, hstaged, hvalid, hgreedy⟩ := hfits.followed [inWord] hbodyFits
    refine ⟨.letIn word tree ⟨inWord, hinKind⟩ bodyTree, rfl,
      ⟨?_, hstaged, hvalid, ⟨hgreedy.1, hgreedy.2, hbodyFits.ends⟩, Level.endsBefore_operand _⟩,
      Nat.succ_le_succ (Nat.max_le.mpr ⟨hnesting, hbodyNesting⟩)⟩
    simp [ParseTree.tokens, htokens]

theorem sound_ifForm {expr : Reader Expr} (hexpr : Sound scope depth (.expression .sum) expr)
    (word : TokenOf .ifWord) {row after : TokenRow} {value : Expr}
    (h : (ifForm expr word.val.pos).run row = .ok (value, after)) :
    ∃ tree : ParseTree (.expression .operand), tree.value scope.declarations.builtins = value ∧
      tree.Fits scope ⟨word.val :: row.rest, row.staged⟩ after ∧ tree.nesting ≤ depth + 1 := by
  rw [ifForm, run_bind_eq_ok] at h
  obtain ⟨opening, behindOpening, hopening, h⟩ := h
  obtain ⟨hopeningKind, rfl⟩ := (expect_eq_ok (by decide)).mp hopening
  rw [run_bind_eq_ok] at h
  obtain ⟨left, behindLeft, hleft, h⟩ := h
  rw [run_bind_eq_ok] at h
  obtain ⟨comparison, behindComparison, hcomparison, h⟩ := h
  obtain ⟨hcomparisonKind, rfl⟩ := (expect_eq_ok (by decide)).mp hcomparison
  rw [run_bind_eq_ok] at h
  obtain ⟨right, behindRight, hright, h⟩ := h
  rw [run_bind_eq_ok] at h
  obtain ⟨closing, behindClosing, hclosing, h⟩ := h
  obtain ⟨hclosingKind, rfl⟩ := (expect_eq_ok (by decide)).mp hclosing
  rw [run_bind_eq_ok] at h
  obtain ⟨thenWord, behindThen, hthen, h⟩ := h
  obtain ⟨hthenKind, rfl⟩ := (expect_eq_ok (by decide)).mp hthen
  rw [run_bind_eq_ok] at h
  obtain ⟨thenBranch, behindThenBranch, hthenBranch, h⟩ := h
  rw [run_bind_eq_ok] at h
  obtain ⟨elseWord, behindElse, helse, h⟩ := h
  obtain ⟨helseKind, rfl⟩ := (expect_eq_ok (by decide)).mp helse
  rw [run_bind_eq_ok] at h
  obtain ⟨elseBranch, behind, helseBranch, h⟩ := h
  obtain ⟨rfl, rfl⟩ := run_pure_eq_ok.mp h
  obtain ⟨leftTree, rfl, hleftFits, hleftNesting⟩ := hexpr _ _ _ hleft
  obtain ⟨rightTree, rfl, hrightFits, hrightNesting⟩ := hexpr _ _ _ hright
  obtain ⟨thenTree, rfl, hthenFits, hthenNesting⟩ := hexpr _ _ _ hthenBranch
  obtain ⟨elseTree, rfl, helseFits, helseNesting⟩ := hexpr _ _ _ helseBranch
  have hleftStaged : behindComparison.staged = _ := hleftFits.staged
  have hrightStaged : behindThen.staged = _ := hrightFits.staged
  have hthenStaged : behindElse.staged = _ := hthenFits.staged
  refine ⟨.ifThenElse word ⟨opening, hopeningKind⟩ leftTree ⟨comparison, hcomparisonKind⟩ rightTree
    ⟨closing, hclosingKind⟩ ⟨thenWord, hthenKind⟩ thenTree ⟨elseWord, helseKind⟩ elseTree,
    rfl, ⟨?_, ?_, ⟨?_, ?_, ?_, ?_⟩, ⟨?_, ?_, ?_, ?_, ?_⟩, Level.endsBefore_operand _⟩, ?_⟩
  · simp [ParseTree.tokens, hleftFits.tokens, hrightFits.tokens, hthenFits.tokens,
      helseFits.tokens]
  · simp [ParseTree.declared, helseFits.staged, hthenStaged, hrightStaged, hleftStaged]
  · exact hleftFits.valid
  · exact hleftStaged ▸ hrightFits.valid
  · exact hleftStaged ▸ hrightStaged ▸ hthenFits.valid
  · exact hleftStaged ▸ hrightStaged ▸ hthenStaged ▸ helseFits.valid
  · exact helseFits.tokens ▸ hthenFits.tokens ▸ hrightFits.tokens ▸ hleftFits.greedy
  · exact helseFits.tokens ▸ hthenFits.tokens ▸ hrightFits.greedy
  · exact helseFits.tokens ▸ hthenFits.greedy
  · exact helseFits.greedy
  · exact helseFits.ends
  · simp only [ParseTree.nesting]
    omega

theorem sound_functionForm {expr : Scope → Reader Expr}
    (hexpr : ∀ inner : Scope, Sound inner depth (.expression .sum) (expr inner))
    (word : TokenOf .functionWord) {row after : TokenRow} {value : Expr}
    (h : (functionForm expr scope word.val.pos).run row = .ok (value, after)) :
    ∃ tree : ParseTree (.expression .operand), tree.value scope.declarations.builtins = value ∧
      tree.Fits scope ⟨word.val :: row.rest, row.staged⟩ after ∧ tree.nesting ≤ depth + 1 := by
  rw [functionForm, run_bind_eq_ok] at h
  obtain ⟨name, behindName, hname, h⟩ := h
  obtain ⟨hnameKind, rfl⟩ := (expect_eq_ok (by decide)).mp hname
  rw [run_bind_of_ok (run_get behindName)] at h
  split at h
  · cases h
  · next hfree =>
    simp only [not_or, Bool.not_eq_true, List.any_eq_false] at hfree
    rw [run_bind_eq_ok] at h
    obtain ⟨parameters, behindParameters, hparameters, h⟩ := h
    obtain ⟨parameterTokens, rfl, hnodup, rfl⟩ := parameters_eq_ok hparameters
    rw [run_bind_eq_ok] at h
    obtain ⟨arrow, behindArrow, harrow, h⟩ := h
    obtain ⟨harrowKind, rfl⟩ := (expect_eq_ok (by decide)).mp harrow
    rw [run_bind_eq_ok] at h
    obtain ⟨body, behindBody, hbody, h⟩ := h
    obtain ⟨bodyTree, rfl, hfits, hnesting⟩ := hexpr _ _ _ _ hbody
    rw [run_bind_of_ok (run_stage _ _)] at h
    obtain ⟨rfl, rfl⟩ := run_pure_eq_ok.mp h
    refine ⟨.function word ⟨name, hnameKind⟩ parameterTokens ⟨arrow, harrowKind⟩ bodyTree,
      rfl, ⟨?_, ?_, ⟨hfree.1, ?_, hnodup, hfits.valid⟩, ⟨hfits.greedy, hfits.ends⟩,
        Level.endsBefore_operand _⟩, Nat.succ_le_succ hnesting⟩
    · simp [ParseTree.tokens, hfits.tokens]
    · simp [ParseTree.declared, hfits.staged]
    · exact hfree.2

theorem sound_constForm {expr : Reader Expr} (hexpr : Sound scope depth (.expression .sum) expr)
    (word : TokenOf .constWord) {row after : TokenRow} {value : Expr}
    (h : (constForm expr word.val.pos).run row = .ok (value, after)) :
    ∃ tree : ParseTree (.expression .operand), tree.value scope.declarations.builtins = value ∧
      tree.Fits scope ⟨word.val :: row.rest, row.staged⟩ after ∧ tree.nesting ≤ depth + 1 := by
  rw [constForm, run_bind_eq_ok] at h
  obtain ⟨bound, behindBound, hbound, h⟩ := h
  obtain ⟨tree, rfl, hfits, hnesting⟩ := sound_binding hexpr _ _ _ hbound
  rw [run_bind_of_ok (run_stage _ _)] at h
  obtain ⟨rfl, rfl⟩ := run_pure_eq_ok.mp h
  exact ⟨.const word tree, rfl, ⟨by simp [ParseTree.tokens, hfits.tokens],
    by simp [ParseTree.declared, hfits.staged], hfits.valid, ⟨hfits.greedy, hfits.ends⟩,
    Level.endsBefore_operand _⟩, Nat.succ_le_succ hnesting⟩

theorem sound_printForm {expr : Reader Expr} (hexpr : Sound scope depth (.expression .sum) expr)
    (word : TokenOf .printWord) {row after : TokenRow} {value : Expr}
    (h : (printForm expr word.val.pos).run row = .ok (value, after)) :
    ∃ tree : ParseTree (.expression .operand), tree.value scope.declarations.builtins = value ∧
      tree.Fits scope ⟨word.val :: row.rest, row.staged⟩ after ∧ tree.nesting ≤ depth + 1 := by
  rw [printForm, run_bind_eq_ok] at h
  obtain ⟨opening, behindOpening, hopening, h⟩ := h
  obtain ⟨hopeningKind, rfl⟩ := (expect_eq_ok (by decide)).mp hopening
  rw [run_bind_eq_ok] at h
  obtain ⟨inner, behindInner, hinner, h⟩ := h
  rw [run_bind_eq_ok] at h
  obtain ⟨closing, behind, hclosing, h⟩ := h
  obtain ⟨hclosingKind, rfl⟩ := (expect_eq_ok (by decide)).mp hclosing
  obtain ⟨rfl, rfl⟩ := run_pure_eq_ok.mp h
  obtain ⟨tree, rfl, hfits, hnesting⟩ := hexpr _ _ _ hinner
  exact ⟨.print word ⟨opening, hopeningKind⟩ tree ⟨closing, hclosingKind⟩, rfl,
    ⟨by simp [ParseTree.tokens, hfits.tokens], hfits.staged, hfits.valid, hfits.greedy,
      Level.endsBefore_operand _⟩, Nat.succ_le_succ hnesting⟩

theorem sound_operand {expr : Scope → Reader Expr} {negated : Reader Expr}
    (hexpr : ∀ inner : Scope, Sound inner depth (.expression .sum) (expr inner))
    (hnegated : Sound scope depth (.expression .operand) negated) :
    Sound scope (depth + 1) (.expression .operand) (operand expr negated scope) := by
  intro row value after h
  rw [operand, run_bind_of_ok (run_next row)] at h
  by_cases heof : (row.rest.headD ⟨.eof, "", .unknown⟩).kind = .eof
  · rw [heof] at h
    cases h
  have hrow : row = ⟨_ :: row.rest.tail, row.staged⟩ :=
    congrArg (TokenRow.mk · row.staged) (rest_eq_of_headD heof rfl)
  generalize row.rest.headD ⟨.eof, "", .unknown⟩ = token at h hrow
  generalize hbehind : (⟨row.rest.tail, row.staged⟩ : TokenRow) = behind at h
  have hbehind' : row = ⟨token :: behind.rest, behind.staged⟩ := by rw [hrow, ← hbehind]
  subst hbehind'
  clear hrow hbehind heof
  have hleaf (tree : ParseTree (.expression .operand)) (htokens : tree.tokens = [token])
      (hdeclared : tree.declared scope.declarations.builtins = [])
      (hvalid : tree.Valid scope behind.staged) (hgreedy : tree.Greedy behind.rest) :
      tree.Fits scope ⟨token :: behind.rest, behind.staged⟩ behind :=
    ⟨by simp [htokens], by simp [hdeclared], hvalid, hgreedy, Level.endsBefore_operand _⟩
  split at h
  · next hkind => exact sound_paren (hexpr scope) ⟨token, hkind⟩ h
  · next hkind =>
    split at h
    · next htext =>
      rw [run_bind_eq_ok] at h
      obtain ⟨right, behindRight, hright, h⟩ := h
      obtain ⟨rfl, rfl⟩ := run_pure_eq_ok.mp h
      obtain ⟨tree, rfl, hfits, hnesting⟩ := hnegated _ _ _ hright
      exact ⟨.negation ⟨token, hkind, List.mem_singleton.mpr htext⟩ tree, rfl,
        ⟨by simp [ParseTree.tokens, hfits.tokens], hfits.staged, hfits.valid, hfits.greedy,
          Level.endsBefore_operand _⟩, Nat.succ_le_succ hnesting⟩
    · cases h
  · next hkind =>
    split at h
    · next x hx =>
      obtain ⟨rfl, rfl⟩ := run_pure_eq_ok.mp h
      exact ⟨.number ⟨token, hkind⟩, by simp [ParseTree.value, hx],
        hleaf _ rfl rfl (by simp [ParseTree.Valid, hx]) trivial, Nat.le_add_left _ _⟩
    · cases h
  · next hkind =>
    obtain ⟨rfl, rfl⟩ := run_pure_eq_ok.mp h
    exact ⟨.string ⟨token, hkind⟩, rfl, hleaf _ rfl rfl trivial trivial, Nat.le_add_left _ _⟩
  · next hkind =>
    rw [run_bind_of_ok (run_peek _)] at h
    split at h
    · next hparen =>
      have hopening : behind = ⟨_ :: behind.rest.tail, behind.staged⟩ :=
        congrArg (TokenRow.mk · behind.staged) (rest_eq_of_headD (by decide) hparen)
      rw [hopening] at h ⊢
      exact sound_call (hexpr scope) ⟨token, hkind⟩ ⟨_, hparen⟩ h
    · obtain ⟨rfl, rfl⟩ := run_pure_eq_ok.mp h
      exact ⟨.access ⟨token, hkind⟩, rfl, hleaf _ rfl rfl trivial trivial, Nat.le_add_left _ _⟩
  · next hkind => exact sound_letForm (hexpr scope) ⟨token, hkind⟩ h
  · next hkind => exact sound_ifForm (hexpr scope) ⟨token, hkind⟩ h
  · next hkind => exact sound_functionForm hexpr ⟨token, hkind⟩ h
  · next hkind => exact sound_constForm (hexpr scope) ⟨token, hkind⟩ h
  · next hkind => exact sound_printForm (hexpr scope) ⟨token, hkind⟩ h
  · cases h

/-- Whatever is read as an expression has a tree, whose nesting is within the one allowed. -/
theorem sound_expression (depth : Nat) (level : Level) (scope : Scope) :
    Sound scope depth (.expression level) (expression depth level scope) := by
  induction depth generalizing level scope with
  | zero =>
    intro row value after h
    cases h
  | succ depth ih =>
    cases level with
    | sum => exact sound_operations (by decide) (ih .product scope)
    | product => exact sound_operations (by decide) (ih .power scope)
    | power => exact sound_operations (by decide) (ih .operand scope)
    | operand => exact sound_operand (fun inner ↦ ih .sum inner) (ih .operand scope)

end Reader

end Reckoner
