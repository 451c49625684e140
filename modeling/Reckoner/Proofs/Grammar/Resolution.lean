import Reckoner.Proofs.Grammar.StatementTree

/-!
What reading asks of the declarations. A statement is read in the same way under two declarations
with the same built-in functions if the names in it are those of functions under both or under
neither. These are the names of its identifiers and of its function headers, and among them are the
names that it declares.
-/

set_option autoImplicit false
set_option relaxedAutoImplicit false

namespace Reckoner

/-- Whether the token is the name, where it is looked up or declared. -/
def Token.IsName (token : Token) (name : String) : Prop :=
  (token.kind = .identifier ∨ token.kind = .functionName) ∧ token.text = name

/-- The name that is declared. -/
def Declaration.name : Declaration → String
  | function definition => definition.name
  | constant name _ => name

namespace ParseTree

/-- A tree in order is in order wherever its names are those of the same functions. -/
theorem valid_congr {declarations declarations' : Declarations}
    (hbuiltins : declarations'.builtins = declarations.builtins) {phrase : Phrase}
    (tree : ParseTree phrase) {declaring : Option String} {before : List Declaration}
    (hnames : ∀ token ∈ tree.tokens, ∀ name, token.IsName name →
      declarations'.isFunction name = declarations.isFunction name)
    (hvalid : tree.Valid ⟨declarations, declaring⟩ before) :
    tree.Valid ⟨declarations', declaring⟩ before := by
  induction tree generalizing declaring before with
  | call name opening args closing hargs =>
    simp only [tokens, List.forall_mem_cons, List.forall_mem_append] at hnames
    obtain ⟨hname, -, hinner, -⟩ := hnames
    have hsame := hname _ ⟨.inl name.property, rfl⟩
    exact ⟨hargs hinner hvalid.1, hsame ▸ hvalid.2⟩
  | function word name parameters arrow body hbody =>
    simp only [tokens, List.forall_mem_cons, List.forall_mem_append] at hnames
    obtain ⟨-, hname, -, -, hinner⟩ := hnames
    have hsame := hname _ ⟨.inr name.property, rfl⟩
    exact ⟨hsame ▸ hvalid.1, hvalid.2.1, hvalid.2.2.1, hbody hinner hvalid.2.2.2⟩
  | noOperation | string token | access name | noItems | noMoreItems => trivial
  | _ =>
    simp only [tokens, Valid, List.forall_mem_cons, List.forall_mem_append, hbuiltins] at *
    grind

variable {builtins : NameMap Builtin}

/-- The name that a binding binds stands in it. -/
theorem exists_isName_of_binding (tree : ParseTree .binding) :
    ∃ token ∈ tree.tokens, token.IsName (tree.value builtins).1 := by
  cases tree with
  | binding name equals value => exact ⟨name.val, List.mem_cons_self, .inl name.property, rfl⟩

/-- The names that are declared stand in the tree. -/
theorem exists_isName_of_declared {phrase : Phrase} (tree : ParseTree phrase) :
    ∀ declaration ∈ tree.declared builtins,
      ∃ token ∈ tree.tokens, token.IsName declaration.name := by
  induction tree with
  | function word name parameters arrow body hbody =>
    refine List.forall_mem_append.mpr ⟨fun declaration hdeclaration ↦ ?_,
      List.forall_mem_singleton.mpr ⟨name.val, by simp [tokens], .inr name.property, rfl⟩⟩
    obtain ⟨token, htoken, hname⟩ := hbody declaration hdeclaration
    exact ⟨token, by simp [tokens, htoken], hname⟩
  | const word bound hbound =>
    obtain ⟨token, htoken, hname⟩ := bound.exists_isName_of_binding
    refine List.forall_mem_append.mpr ⟨fun declaration hdeclaration ↦ ?_,
      List.forall_mem_singleton.mpr ⟨token, List.mem_cons_of_mem _ htoken, hname⟩⟩
    obtain ⟨token, htoken, hname⟩ := hbound declaration hdeclaration
    exact ⟨token, List.mem_cons_of_mem _ htoken, hname⟩
  | noOperation | number token | string token | access name | noItems | noMoreItems =>
    exact List.forall_mem_nil _
  | _ =>
    simp only [tokens, declared, List.forall_mem_append] at *
    grind

end ParseTree

namespace Statement

variable {limit : Nat} {declarations declarations' : Declarations} {tokens : List Token}
  {statement : Statement}

/-- Tokens are read as the same statement wherever their names are those of the same functions. -/
theorem ofTokens_congr (hbuiltins : declarations'.builtins = declarations.builtins)
    (hnames : ∀ token ∈ tokens, ∀ name, token.IsName name →
      declarations'.isFunction name = declarations.isFunction name)
    (h : ofTokens limit declarations tokens = .ok statement) :
    ofTokens limit declarations' tokens = .ok statement := by
  obtain ⟨tree, hderives, hnesting, rfl⟩ := exists_nested_of_ofTokens h
  have hvalid := tree.expr.valid_congr hbuiltins
    (fun token htoken ↦ hnames token (hderives.subset htoken)) hderives.valid
  have hread := ofTokens_of_nesting ⟨hderives.tokens, hderives.greedy, hvalid⟩ hnesting
  rw [hbuiltins] at hread
  exact hread

/-- The names that a statement declares are among its tokens. -/
theorem exists_isName_of_ofTokens (h : ofTokens limit declarations tokens = .ok statement) :
    ∀ declaration ∈ statement.declared, ∃ token ∈ tokens, token.IsName declaration.name := by
  obtain ⟨tree, hderives, rfl⟩ := exists_derives_of_ofTokens h
  intro declaration hdeclaration
  obtain ⟨token, htoken, hname⟩ := tree.expr.exists_isName_of_declared declaration hdeclaration
  exact ⟨token, hderives.subset htoken, hname⟩

end Statement

end Reckoner
