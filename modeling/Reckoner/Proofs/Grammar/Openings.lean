import Reckoner.Proofs.Grammar.StatementTree

/-!
How deep the trees of a statement can be. Going into a form costs a level, but every form has a
token that only such forms have: a parenthesis, an operator or one of the words that a form starts
with. So few of these tokens mean little nesting, however long the statement is.
-/

set_option autoImplicit false
set_option relaxedAutoImplicit false

namespace Reckoner

/-- Whether such a token opens a form that may have others inside it. -/
def TokenKind.Opens (kind : TokenKind) : Prop :=
  kind = .leftParen ∨ kind = .operator ∨ kind = .letWord ∨ kind = .ifWord ∨
    kind = .functionWord ∨ kind = .constWord

instance : DecidablePred TokenKind.Opens :=
  fun kind ↦ inferInstanceAs (Decidable (kind = .leftParen ∨ kind = .operator ∨
    kind = .letWord ∨ kind = .ifWord ∨ kind = .functionWord ∨ kind = .constWord))

/-- How many of the tokens open a form. -/
def openings (tokens : List Token) : Nat :=
  tokens.countP (·.kind.Opens)

/-- What the nesting of a phrase leaves of the bound on it. An operation adds an operator, so it
leaves a form more. -/
def Phrase.margin : Phrase → Nat
  | operations _ => 4
  | phrase => phrase.looser

/-- There are at most four levels from a form to the next one inside it. -/
theorem ParseTree.nesting_add_margin_le {phrase : Phrase} (tree : ParseTree phrase) :
    tree.nesting + phrase.margin ≤ 4 * (openings tree.tokens + 1) := by
  have hof {kind : TokenKind} (token : TokenOf kind) : token.val.kind = kind := token.property
  have hsign {texts : List String} (sign : OperatorOf texts) : sign.val.kind = .operator :=
    sign.property.1
  unfold openings
  induction tree with
  | @chain level loose first more hfirst hmore =>
    simp only [nesting, tokens, List.countP_append, Phrase.margin] at *
    cases level with
    | operand => exact absurd rfl loose
    | sum | product | power =>
      simp only [Level.tighter, Phrase.looser] at *
      omega
  | operation sign right more hright hmore =>
    simp only [nesting, tokens, Phrase.margin, List.countP_cons, List.countP_append,
      TokenKind.Opens, hsign] at *
    simp
    omega
  | _ =>
    simp only [nesting, tokens, Phrase.margin, Phrase.looser, List.countP_append,
      List.countP_cons, TokenKind.Opens, hof, hsign, List.countP_nil] at *
    simp <;> omega

/-- Tokens with a derivation are read under any limit that the forms in them allow for. -/
theorem Statement.ofTokens_of_openings {tree : StatementTree} {declarations : Declarations}
    {tokens : List Token} (h : tree.Derives declarations tokens) {limit : Nat}
    (hlimit : 4 * (openings tokens + 1) ≤ limit) :
    ofTokens limit declarations tokens = .ok (tree.statement declarations.builtins) := by
  have hnesting : tree.expr.nesting ≤ 4 * (openings tree.expr.tokens + 1) :=
    Nat.le_of_add_right_le tree.expr.nesting_add_margin_le
  have hopenings : openings tree.expr.tokens ≤ openings tokens := by
    have hsublist : List.Sublist tree.expr.tokens tokens := by
      have hfront : List.Sublist (tree.expr.tokens ++ tree.ending) tokens :=
        h.tokens ▸ List.takeWhile_sublist _
      exact (List.sublist_append_left _ _).trans hfront
    exact hsublist.countP_le
  exact ofTokens_of_nesting h (by omega)

end Reckoner
