import Reckoner.Statement.Form

/-!
Statements: an expression and the declarations that were read inside it. Operators bind at
three levels, each grouping from the left: powers tightest, then products, then sums. Each
level and each form costs one unit of the nesting that the limit bounds.
-/

set_option autoImplicit false
set_option relaxedAutoImplicit false

namespace Reckoner

/-- A level of expressions, from the loosest to the tightest. -/
inductive Level where
  | sum
  | product
  | power
  | operand
  deriving DecidableEq, Repr

/-- The operators that join expressions of the level. -/
def Level.joins : Level → Operator → Bool
  | sum, op => op = .add || op = .sub
  | product, op => op = .mul || op = .div
  | power, op => op = .pow
  | operand, _ => false

/-- Reads an expression of a level with at most `depth` levels and forms inside each other. -/
def Reader.expression : Nat → Level → Scope → Reader Expr
  | 0, _, _ => throw .tooDeep
  | depth + 1, .sum, scope =>
    operations Level.sum.joins (expression depth .product scope)
  | depth + 1, .product, scope =>
    operations Level.product.joins (expression depth .power scope)
  | depth + 1, .power, scope =>
    operations Level.power.joins (expression depth .operand scope)
  | depth + 1, .operand, scope =>
    operand (expression depth .sum) (expression depth .operand scope) scope

/-- A statement that has been read. -/
structure Statement where
  expr : Expr
  /-- Its declarations in the order of their completion. -/
  declared : List Declaration

namespace Statement

/-- Reads a statement that takes up all tokens, with at most one semicolon at its end. -/
def reader (limit : Nat) (declarations : Declarations) : Reader Statement := do
  let expr ← Reader.expression limit .sum ⟨declarations, none⟩
  let _ ← Reader.accept .semicolon
  let token ← Reader.peek
  if token.kind = .eof then return ⟨expr, (← get).staged⟩
  else Reader.fail .afterStatement token

/-- The statement that the tokens form. -/
def ofTokens (limit : Nat) (declarations : Declarations) (tokens : List Token) :
    Except (Fault ParseError) Statement :=
  ((reader limit declarations).run ⟨tokens, []⟩).map (·.1)

end Statement

end Reckoner
