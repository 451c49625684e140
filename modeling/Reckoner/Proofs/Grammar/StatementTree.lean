import Reckoner.Proofs.Grammar.Limit
import Reckoner.Proofs.Grammar.Soundness
import Reckoner.Proofs.Grammar.Unambiguity

/-!
Statements and their derivations. The tokens in front of the first end mark form a statement
if and only if they have a derivation that is greedy and in order. There is at most one, and
what is read is what it stands for, unless the limit on nesting is in the way.
-/

set_option autoImplicit false
set_option relaxedAutoImplicit false

namespace Reckoner

/-- How many levels are looser than that of the phrase. -/
def Phrase.looser : Phrase → Nat
  | expression .sum => 0
  | expression .product => 1
  | expression .power => 2
  | expression .operand => 3
  | _ => 0

theorem Phrase.looser_tighter {level : Level} (loose : level ≠ .operand) :
    (expression level.tighter).looser = (expression level).looser + 1 := by
  cases level with
  | sum => rfl
  | product => rfl
  | power => rfl
  | operand => exact absurd rfl loose

namespace ParseTree

/-- From a form to the next one inside it there are at most four levels, and a token. -/
theorem nesting_add_looser_le {phrase : Phrase} (tree : ParseTree phrase) :
    tree.nesting + phrase.looser ≤ 4 * tree.tokens.length := by
  induction tree with
  | chain loose first more hfirst hmore =>
    rw [Phrase.looser_tighter loose] at hfirst
    have hmore : more.nesting ≤ 4 * more.tokens.length := Nat.le_of_add_right_le hmore
    simp only [nesting, tokens, List.length_append]
    omega
  | _ =>
    simp only [nesting, tokens, Phrase.looser, List.length_append, List.length_cons,
      List.length_nil] at *
    omega

theorem nesting_pos {level : Level} (tree : ParseTree (.expression level)) : 0 < tree.nesting := by
  cases tree <;> simp [nesting]

theorem tokens_ne_nil {level : Level} (tree : ParseTree (.expression level)) :
    tree.tokens ≠ [] := by
  intro hnil
  have hlength := tree.nesting_add_looser_le
  have hpos := tree.nesting_pos
  rw [hnil, List.length_nil] at hlength
  omega

/-- No end mark and no semicolon stands inside a tree. -/
theorem kind_of_mem_tokens {phrase : Phrase} (tree : ParseTree phrase) {token : Token}
    (h : token ∈ tree.tokens) : token.kind ≠ .eof ∧ token.kind ≠ .semicolon := by
  have hof {kind : TokenKind} (hkind : kind ≠ .eof ∧ kind ≠ .semicolon) (token : TokenOf kind) :
      token.val.kind ≠ .eof ∧ token.val.kind ≠ .semicolon := by
    rw [token.property]
    exact hkind
  have hoperator {texts : List String} (sign : OperatorOf texts) :
      sign.val.kind ≠ .eof ∧ sign.val.kind ≠ .semicolon := by
    rw [sign.property.1]
    decide
  have hparameters (parameters : List (TokenOf .parameter)) {token : Token}
      (h : token ∈ parameters.map (·.val)) : token.kind ≠ .eof ∧ token.kind ≠ .semicolon := by
    obtain ⟨parameter, -, rfl⟩ := List.mem_map.mp h
    exact hof (by decide) parameter
  induction tree with
  | function word name parameters arrow body hbody =>
    simp only [tokens, List.mem_cons, List.mem_append] at h
    rcases h with rfl | rfl | h | rfl | h
    · exact hof (by decide) word
    · exact hof (by decide) name
    · exact hparameters parameters h
    · exact hof (by decide) arrow
    · exact hbody h
  | noOperation => cases h
  | noItems => cases h
  | noMoreItems => cases h
  | _ =>
    simp only [tokens, List.mem_cons, List.mem_append, List.not_mem_nil, or_false] at h
    grind

theorem kind_ne_eof {phrase : Phrase} (tree : ParseTree phrase) {token : Token}
    (h : token ∈ tree.tokens) : token.kind ≠ .eof :=
  (tree.kind_of_mem_tokens h).1

/-- There is one declaration for each of the words that start one. -/
theorem length_declared (builtins : NameMap Builtin) {phrase : Phrase} (tree : ParseTree phrase) :
    (tree.declared builtins).length =
      tree.tokens.countP fun token ↦ token.kind = .functionWord ∨ token.kind = .constWord := by
  have hof {kind : TokenKind} (token : TokenOf kind) : token.val.kind = kind := token.property
  have hparameters (parameters : List (TokenOf .parameter)) :
      (parameters.map (·.val)).countP
        (fun token ↦ token.kind = .functionWord ∨ token.kind = .constWord) = 0 := by
    rw [List.countP_eq_zero]
    intro token htoken
    obtain ⟨parameter, -, rfl⟩ := List.mem_map.mp htoken
    simp [hof parameter]
  induction tree with
  | operation sign right more hright hmore =>
    simp [declared, tokens, sign.property.1, hright, hmore]
  | negation minus right hright => simp [declared, tokens, minus.property.1, hright]
  | binding name equals value hvalue =>
    simp [declared, tokens, equals.property.1, hof, hvalue]
  | function word name parameters arrow body hbody =>
    rw [declared, tokens, List.length_append, hbody, List.countP_cons, List.countP_cons,
      List.countP_append, List.countP_cons, hparameters]
    simp [hof]
  | _ => simp [declared, tokens, *]

/-- What stands behind a tree matters to its greed only in whether an operator comes first. -/
theorem greedy_congr {phrase : Phrase} (tree : ParseTree phrase) {rest rest' : List Token}
    (h : Level.sum.EndsBefore rest ↔ Level.sum.EndsBefore rest') :
    tree.Greedy rest ↔ tree.Greedy rest' := by
  have hcons (token : Token) (rest rest' : List Token) :
      Level.sum.EndsBefore (token :: rest) ↔ Level.sum.EndsBefore (token :: rest') := Iff.rfl
  have happend (tokens : List Token) {rest rest' : List Token}
      (h : Level.sum.EndsBefore rest ↔ Level.sum.EndsBefore rest') :
      Level.sum.EndsBefore (tokens ++ rest) ↔ Level.sum.EndsBefore (tokens ++ rest') := by
    cases tokens with
    | nil => exact h
    | cons token tokens => exact hcons token _ _
  induction tree generalizing rest rest' with
  | chain loose first more hfirst hmore => exact and_congr (hfirst (happend _ h)) (hmore h)
  | operation sign right more hright hmore => exact and_congr (hright (happend _ h)) (hmore h)
  | paren opening inner closing hinner => exact hinner (hcons _ _ _)
  | negation minus right hright => exact hright h
  | call name opening args closing hargs => exact hargs (hcons _ _ _)
  | letIn word bound inWord body hbound hbody =>
    exact and_congr (hbound (hcons _ _ _)) (and_congr (hbody h) h)
  | letGroup word arrow opening bindings closing inWord body hbindings hbody =>
    exact and_congr (hbindings (hcons _ _ _)) (and_congr (hbody h) h)
  | ifThenElse word opening left comparison right closing thenWord thenBranch elseWord elseBranch
      hleft hright hthen helse =>
    exact and_congr (hleft (hcons _ _ _)) (and_congr (hright (hcons _ _ _))
      (and_congr (hthen (hcons _ _ _)) (and_congr (helse h) h)))
  | function word name parameters arrow body hbody => exact and_congr (hbody h) h
  | const word bound hbound => exact and_congr (hbound h) h
  | print word opening inner closing hinner => exact hinner (hcons _ _ _)
  | binding name equals value hvalue => exact hvalue h
  | items first more hfirst hmore => exact and_congr (hfirst (happend _ h)) (hmore h)
  | moreItems comma first more hfirst hmore => exact and_congr (hfirst (happend _ h)) (hmore h)
  | _ => exact Iff.rfl

end ParseTree

/-- A derivation of a statement: an expression, and a semicolon behind it or none. -/
structure StatementTree where
  expr : ParseTree (.expression .sum)
  semicolon : Option (TokenOf .semicolon)

namespace StatementTree

/-- What stands behind the expression. -/
def ending (tree : StatementTree) : List Token :=
  (tree.semicolon.map (·.val)).toList

/-- The statement that the tree stands for. -/
def statement (builtins : NameMap Builtin) (tree : StatementTree) : Statement :=
  ⟨tree.expr.value builtins, tree.expr.declared builtins⟩

/-- The tree derives the tokens in front of the first end mark, greedily and with all names and
numbers in order. -/
structure Derives (tree : StatementTree) (declarations : Declarations) (tokens : List Token) :
    Prop where
  tokens : tokens.takeWhile (·.kind ≠ .eof) = tree.expr.tokens ++ tree.ending
  greedy : tree.expr.Greedy tree.ending
  valid : tree.expr.Valid ⟨declarations, none⟩ []

/-- The tokens of the expression are among those that are derived. -/
theorem Derives.subset {tree : StatementTree} {declarations : Declarations} {tokens : List Token}
    (h : tree.Derives declarations tokens) : tree.expr.tokens ⊆ tokens := by
  intro token htoken
  have hfront : token ∈ tokens.takeWhile (·.kind ≠ .eof) := by
    rw [h.tokens]
    exact List.mem_append_left _ htoken
  exact (List.takeWhile_sublist _).subset hfront

/-- Behind an expression neither a semicolon nor the end of the statement carries it on. -/
theorem ending_append_stops (tree : StatementTree) {rest : List Token}
    (h : ∀ token ∈ rest.head?, token.kind = .eof) :
    (Phrase.expression .sum).StopsBefore (tree.ending ++ rest) := by
  have hkind : ∀ token ∈ (tree.ending ++ rest).head?,
      token.kind = .semicolon ∨ token.kind = .eof := by
    intro token htoken
    cases hsemicolon : tree.semicolon with
    | none =>
      rw [ending, hsemicolon] at htoken
      exact .inr (h token htoken)
    | some semicolon =>
      rw [ending, hsemicolon] at htoken
      cases htoken
      exact .inl semicolon.property
  constructor
  · intro token htoken hoperator
    rcases hkind token htoken with h | h <;> rw [h] at hoperator <;> cases hoperator
  · intro token htoken hparen
    rcases hkind token htoken with h | h <;> rw [h] at hparen <;> cases hparen

theorem ending_stops (tree : StatementTree) :
    (Phrase.expression .sum).StopsBefore tree.ending := by
  have hnil : ∀ token ∈ ([] : List Token).head?, token.kind = .eof := nofun
  rw [← List.append_nil tree.ending]
  exact tree.ending_append_stops hnil

theorem greedy_ending_append_iff (tree : StatementTree) {rest : List Token}
    (h : ∀ token ∈ rest.head?, token.kind = .eof) :
    tree.expr.Greedy (tree.ending ++ rest) ↔ tree.expr.Greedy tree.ending :=
  tree.expr.greedy_congr (iff_of_true (tree.ending_append_stops h).1 tree.ending_stops.1)

/-- Tokens have at most one derivation. -/
theorem Derives.unique {tree other : StatementTree} {declarations : Declarations}
    {tokens : List Token} (h : tree.Derives declarations tokens)
    (hother : other.Derives declarations tokens) : tree = other := by
  obtain ⟨expr, semicolon⟩ := tree
  obtain ⟨expr', semicolon'⟩ := other
  obtain ⟨rfl, hending⟩ := expr.determined expr' _ _ (h.tokens.symm.trans hother.tokens) h.greedy
    hother.greedy (ending_stops _) (ending_stops _)
  have hsemicolon : semicolon = semicolon' := by
    cases semicolon <;> cases semicolon' <;> simp_all [ending, Subtype.ext_iff]
  rw [hsemicolon]

end StatementTree

namespace Statement

open Reader

theorem ofTokens_eq_ok {limit : Nat} {declarations : Declarations} {tokens : List Token}
    {statement : Statement} : ofTokens limit declarations tokens = .ok statement ↔
      ∃ after, (reader limit declarations).run ⟨tokens, []⟩ = .ok (statement, after) := by
  unfold ofTokens
  cases (reader limit declarations).run ⟨tokens, []⟩ with
  | error fault => simp [Except.map]
  | ok result =>
    obtain ⟨found, after⟩ := result
    simp [Except.map]

/-- The tokens of a tree, of what ends the statement and of what follows its end. -/
theorem takeWhile_ne_eof (tree : StatementTree) {rest : List Token}
    (h : ∀ token ∈ rest.head?, token.kind = .eof) :
    (tree.expr.tokens ++ (tree.ending ++ rest)).takeWhile (·.kind ≠ .eof) =
      tree.expr.tokens ++ tree.ending := by
  have hall : ∀ token ∈ tree.expr.tokens ++ tree.ending,
      decide (token.kind ≠ TokenKind.eof) = true := by
    intro token htoken
    rw [decide_eq_true_eq]
    rcases List.mem_append.mp htoken with hexpr | hending
    · exact tree.expr.kind_ne_eof hexpr
    · obtain ⟨semicolon, -, rfl⟩ := Option.map_eq_some_iff.mp (Option.mem_toList.mp hending)
      rw [semicolon.property]
      decide
  have hrest : rest.takeWhile (·.kind ≠ .eof) = [] := by
    cases rest with
    | nil => rfl
    | cons token rest => simp [h token rfl]
  rw [← List.append_assoc, List.takeWhile_append_of_pos hall, hrest, List.append_nil]

/-- Whatever is read as a statement has a derivation that is within the limit on nesting. -/
theorem exists_nested_of_ofTokens {limit : Nat} {declarations : Declarations}
    {tokens : List Token} {statement : Statement}
    (h : ofTokens limit declarations tokens = .ok statement) :
    ∃ tree : StatementTree, tree.Derives declarations tokens ∧ tree.expr.nesting ≤ limit ∧
      tree.statement declarations.builtins = statement := by
  obtain ⟨after, h⟩ := ofTokens_eq_ok.mp h
  rw [reader, run_bind_eq_ok] at h
  obtain ⟨value, behind, hexpr, h⟩ := h
  obtain ⟨expr, rfl, hfits, hnesting⟩ := sound_expression limit .sum _ _ _ _ hexpr
  -- the derivation, whichever way the statement ends behind its expression
  have hread (semicolon : Option (TokenOf .semicolon)) (rest : List Token)
      (hbehind : behind.rest = StatementTree.ending ⟨expr, semicolon⟩ ++ rest)
      (hrest : ∀ token ∈ rest.head?, token.kind = .eof) :
      StatementTree.Derives ⟨expr, semicolon⟩ declarations tokens := by
    have htokens : tokens = _ := hfits.tokens
    rw [htokens, hbehind]
    refine ⟨takeWhile_ne_eof ⟨expr, semicolon⟩ hrest, ?_, hfits.valid⟩
    rw [← StatementTree.greedy_ending_append_iff _ hrest, ← hbehind]
    exact hfits.greedy
  have hend (rest : List Token) (heof : (rest.headD ⟨.eof, "", .unknown⟩).kind = .eof) :
      ∀ token ∈ rest.head?, token.kind = .eof := by
    intro token htoken
    rwa [List.headD_eq_head?_getD, Option.mem_def.mp htoken] at heof
  have hstaged : behind.staged = expr.declared declarations.builtins := hfits.staged
  rw [run_bind_eq_ok] at h
  obtain ⟨closed, behindSemicolon, hclosed, h⟩ := h
  rw [run_bind_of_ok (run_peek _)] at h
  split at h
  · next heof =>
    rw [run_bind_of_ok (run_get _)] at h
    obtain ⟨rfl, rfl⟩ := run_pure_eq_ok.mp h
    cases closed with
    | true =>
      obtain ⟨semicolon, rfl⟩ := accept_eq_true (by decide) hclosed
      exact ⟨⟨expr, some semicolon⟩, hread _ _ rfl (hend _ heof), hnesting,
        congrArg (Statement.mk _) hstaged.symm⟩
    | false =>
      obtain ⟨rfl, -⟩ := accept_eq_false hclosed
      exact ⟨⟨expr, none⟩, hread _ _ rfl (hend _ heof), hnesting,
        congrArg (Statement.mk _) hstaged.symm⟩
  · cases h

/-- Whatever is read as a statement has a derivation. -/
theorem exists_derives_of_ofTokens {limit : Nat} {declarations : Declarations}
    {tokens : List Token} {statement : Statement}
    (h : ofTokens limit declarations tokens = .ok statement) :
    ∃ tree : StatementTree, tree.Derives declarations tokens ∧
      tree.statement declarations.builtins = statement := by
  obtain ⟨tree, hderives, -, hstatement⟩ := exists_nested_of_ofTokens h
  exact ⟨tree, hderives, hstatement⟩

/-- Tokens with a derivation within the limit on nesting are read. -/
theorem ofTokens_of_nesting {tree : StatementTree} {declarations : Declarations}
    {tokens : List Token} (h : tree.Derives declarations tokens) {limit : Nat}
    (hlimit : tree.expr.nesting ≤ limit) :
    ofTokens limit declarations tokens = .ok (tree.statement declarations.builtins) := by
  have hrest : ∀ token ∈ (tokens.dropWhile (·.kind ≠ .eof)).head?, token.kind = .eof := by
    intro token htoken
    have hnot := List.head?_dropWhile_not (·.kind ≠ TokenKind.eof) tokens
    rw [Option.mem_def.mp htoken] at hnot
    simpa using hnot
  generalize hend : tokens.dropWhile (·.kind ≠ .eof) = rest at hrest
  have htokens : tokens = tree.expr.tokens ++ (tree.ending ++ rest) := by
    rw [← List.append_assoc, ← h.tokens, ← hend, List.takeWhile_append_dropWhile]
  have hstops := tree.ending_append_stops hrest
  have hexpr := complete_expression limit .sum ⟨declarations, none⟩ tree.expr [] _ hlimit h.valid
    ((tree.greedy_ending_append_iff hrest).mpr h.greedy) hstops.1 hstops.2
  rw [List.nil_append] at hexpr
  have heof : (rest.headD ⟨.eof, "", .unknown⟩).kind = .eof := by
    cases rest with
    | nil => rfl
    | cons token rest => exact hrest token rfl
  have hclosed : ∃ closed, (accept .semicolon).run
      ⟨tree.ending ++ rest, tree.expr.declared declarations.builtins⟩ =
        .ok (closed, ⟨rest, tree.expr.declared declarations.builtins⟩) := by
    cases hsemicolon : tree.semicolon with
    | none =>
      rw [StatementTree.ending, hsemicolon]
      refine ⟨false, run_accept_of_ne ?_⟩
      change (rest.headD ⟨.eof, "", .unknown⟩).kind ≠ .semicolon
      rw [heof]
      decide
    | some semicolon =>
      rw [StatementTree.ending, hsemicolon]
      exact ⟨true, run_accept_of_eq semicolon.property _ _⟩
  obtain ⟨closed, hclosed⟩ := hclosed
  rw [ofTokens_eq_ok]
  refine ⟨⟨rest, tree.expr.declared declarations.builtins⟩, ?_⟩
  rw [htokens, reader, run_bind_of_ok hexpr, run_bind_of_ok hclosed, run_bind_of_ok (run_peek _),
    if_pos heof, run_bind_of_ok (run_get _)]
  rfl

/-- Tokens with a derivation are read, under any limit that their number allows for. -/
theorem ofTokens_of_derives {tree : StatementTree} {declarations : Declarations}
    {tokens : List Token} (h : tree.Derives declarations tokens) {limit : Nat}
    (hlimit : 4 * tokens.length ≤ limit) :
    ofTokens limit declarations tokens = .ok (tree.statement declarations.builtins) := by
  have hnesting := tree.expr.nesting_add_looser_le
  have hlength : tree.expr.tokens.length ≤ tokens.length := by
    have hprefix := (List.takeWhile_prefix (l := tokens) (·.kind ≠ .eof)).length_le
    rw [h.tokens, List.length_append] at hprefix
    omega
  simp only [Phrase.looser] at hnesting
  exact ofTokens_of_nesting h (by omega)

/-- Tokens with a derivation are read unless the limit on nesting is in the way. -/
theorem ofTokens_under_of_derives {tree : StatementTree} {declarations : Declarations}
    {tokens : List Token} (h : tree.Derives declarations tokens) (limit : Nat) :
    ofTokens limit declarations tokens = .error .tooDeep ∨
      ofTokens limit declarations tokens = .ok (tree.statement declarations.builtins) := by
  -- under the larger of both limits the tokens are read, so the smaller one can only stop that
  rcases ofTokens_under (Nat.le_max_left limit (4 * tokens.length)) declarations tokens with
    hdeep | hsame
  · exact .inl hdeep
  · exact .inr (hsame.trans (ofTokens_of_derives h (Nat.le_max_right _ _)))

/-- A statement starts with its expression, so with no semicolon and no end mark. -/
theorem head_of_ofTokens {limit : Nat} {declarations : Declarations} {tokens : List Token}
    {statement : Statement} (h : ofTokens limit declarations tokens = .ok statement) :
    ∀ token ∈ tokens.head?, token.kind ≠ .eof ∧ token.kind ≠ .semicolon := by
  obtain ⟨tree, hderives, -⟩ := exists_derives_of_ofTokens h
  have hne := tree.expr.tokens_ne_nil
  obtain ⟨first, more, hexpr⟩ := List.exists_cons_of_ne_nil hne
  have hfirst := tree.expr.kind_of_mem_tokens (hexpr ▸ List.mem_cons_self)
  have htokens := hderives.tokens
  intro token htoken
  obtain ⟨rest, rfl⟩ := List.head?_eq_some_iff.mp htoken
  rw [hexpr, List.cons_append] at htokens
  by_cases heof : token.kind = .eof
  · rw [List.takeWhile_cons_of_neg (by simp [heof])] at htokens
    cases htokens
  · rw [List.takeWhile_cons_of_pos (by simp [heof])] at htokens
    rw [(List.cons.inj htokens).1]
    exact hfirst

/-- A statement is read from its tokens up to its semicolon, whatever stands behind that. -/
theorem ofTokens_of_terminated {limit : Nat} {declarations : Declarations}
    {first behind : List Token} {statement : Statement} {pos : Pos}
    (hfirst : ∀ token ∈ first, token.kind ≠ .eof)
    (hbehind : ∃ token ∈ behind.head?, token.kind = .semicolon ∨ token.kind = .eof)
    (h : ofTokens limit declarations (first ++ behind) = .ok statement) :
    ofTokens limit declarations (first ++ [⟨.eof, "", pos⟩]) = .ok statement := by
  obtain ⟨tree, hderives, hnesting, rfl⟩ := exists_nested_of_ofTokens h
  obtain ⟨token, htoken, hkind⟩ := hbehind
  obtain ⟨rest, rfl⟩ := List.head?_eq_some_iff.mp htoken
  have hall : ∀ token ∈ first, decide (token.kind ≠ TokenKind.eof) = true := by
    simpa using hfirst
  have hbody : (first ++ [Token.mk .eof "" pos]).takeWhile (·.kind ≠ .eof) = first := by
    rw [List.takeWhile_append_of_pos hall, List.takeWhile_cons_of_neg (by simp), List.append_nil]
  have htokens := hderives.tokens
  rw [List.takeWhile_append_of_pos hall] at htokens
  rcases hkind with hsemicolon | heof
  · rw [List.takeWhile_cons_of_pos (by simp [hsemicolon])] at htokens
    have hexpr : first = tree.expr.tokens := by
      rcases List.append_eq_append_iff.mp htokens with ⟨more, hexpr, hmore⟩ | ⟨more, hexpr, hmore⟩
      · cases more with
        | nil => rw [hexpr, List.append_nil]
        | cons other more =>
          obtain ⟨rfl, -⟩ := List.cons.inj hmore
          have hmem : token ∈ tree.expr.tokens := by simp [hexpr]
          exact absurd hsemicolon (tree.expr.kind_of_mem_tokens hmem).2
      · have hlength := congrArg List.length hmore
        have hending : tree.ending.length ≤ 1 := Option.length_toList_le
        rw [List.length_append, List.length_cons] at hlength
        rw [hexpr, List.eq_nil_of_length_eq_zero (by omega : more.length = 0), List.append_nil]
    have hends : Level.sum.EndsBefore [] := fun token htoken ↦ by cases htoken
    have hgreedy : tree.expr.Greedy [] :=
      (tree.expr.greedy_congr (iff_of_true tree.ending_stops.1 hends)).mp hderives.greedy
    have hderives : StatementTree.Derives ⟨tree.expr, none⟩ declarations
        (first ++ [⟨.eof, "", pos⟩]) :=
      ⟨by rw [hbody, hexpr]; exact (List.append_nil _).symm, hgreedy, hderives.valid⟩
    exact ofTokens_of_nesting hderives hnesting
  · rw [List.takeWhile_cons_of_neg (by simp [heof]), List.append_nil] at htokens
    have hderives : tree.Derives declarations (first ++ [⟨.eof, "", pos⟩]) :=
      ⟨hbody.trans htokens, hderives.greedy, hderives.valid⟩
    exact ofTokens_of_nesting hderives hnesting

/-- The statement is what the only derivation of the tokens stands for. -/
def DerivedFrom (declarations : Declarations) (tokens : List Token) (statement : Statement) :
    Prop :=
  ∃ tree : StatementTree, tree.Derives declarations tokens ∧
    (∀ other : StatementTree, other.Derives declarations tokens → other = tree) ∧
      tree.statement declarations.builtins = statement

theorem derivedFrom_of_ofTokens {limit : Nat} {declarations : Declarations}
    {tokens : List Token} {statement : Statement}
    (h : ofTokens limit declarations tokens = .ok statement) :
    statement.DerivedFrom declarations tokens := by
  obtain ⟨tree, hderives, hstatement⟩ := exists_derives_of_ofTokens h
  exact ⟨tree, hderives, fun other hother ↦ hother.unique hderives, hstatement⟩

/-- The tokens in front of the first end mark are read as a statement if and only if they have
a derivation, which is then the only one and stands for that statement. A limit on nesting
can do no more than stop the reading, and does not if it allows for the number of tokens. -/
theorem ofTokens_iff_derivedFrom (declarations : Declarations) (tokens : List Token)
    (statement : Statement) :
    (∀ limit, ofTokens limit declarations tokens = .error .tooDeep ∨
      (ofTokens limit declarations tokens = .ok statement ↔
        statement.DerivedFrom declarations tokens)) ∧
    ∀ limit, 4 * tokens.length ≤ limit →
      (ofTokens limit declarations tokens = .ok statement ↔
        statement.DerivedFrom declarations tokens) := by
  have hcomplete (limit : Nat) (hlimit : 4 * tokens.length ≤ limit)
      (h : statement.DerivedFrom declarations tokens) :
      ofTokens limit declarations tokens = .ok statement := by
    obtain ⟨tree, hderives, -, rfl⟩ := h
    exact ofTokens_of_derives hderives hlimit
  constructor
  · intro limit
    -- under the larger of both limits the tokens are read, so the smaller one can only stop that
    rcases ofTokens_under (Nat.le_max_left limit (4 * tokens.length)) declarations tokens with
      hdeep | hsame
    · exact .inl hdeep
    · refine .inr ⟨derivedFrom_of_ofTokens, fun h ↦ ?_⟩
      rw [hsame]
      exact hcomplete _ (Nat.le_max_right _ _) h
  · exact fun limit hlimit ↦ ⟨derivedFrom_of_ofTokens, hcomplete limit hlimit⟩

end Statement

end Reckoner
