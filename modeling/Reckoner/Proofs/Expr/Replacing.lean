import Reckoner.Statement

/-!
Expressions and statements with another expression in the place of a literal. The nodes around it
may move to other positions.
-/

set_option autoImplicit false
set_option relaxedAutoImplicit false

namespace Reckoner

/-- What replaces the literals at a position, and where all other nodes move to. -/
structure Replacement where
  place : Pos
  new : Expr
  move : Pos → Pos

mutual

/-- The expression after the replacement. -/
def Expr.replace (change : Replacement) : Expr → Expr
  | .literal pos value =>
    if pos = change.place then change.new else .literal (change.move pos) value
  | .access pos name => .access (change.move pos) name
  | .binary pos op left right =>
    .binary (change.move pos) op (left.replace change) (right.replace change)
  | .ifThenElse pos condition thenBranch elseBranch =>
    .ifThenElse (change.move pos) (condition.replace change) (thenBranch.replace change)
      (elseBranch.replace change)
  | .letIn pos name value body =>
    .letIn (change.move pos) name (value.replace change) (body.replace change)
  | .letGroup pos bindings body =>
    .letGroup (change.move pos) (replaceBindings change bindings) (body.replace change)
  | .userCall pos name args => .userCall (change.move pos) name (replaceArgs change args)
  | .builtinCall pos name args => .builtinCall (change.move pos) name (replaceArgs change args)
  | .function pos name parameters body =>
    .function (change.move pos) name parameters (body.replace change)
  | .endMarker pos => .endMarker (change.move pos)

/-- The arguments after the replacement. -/
def replaceArgs (change : Replacement) : List Expr → List Expr
  | [] => []
  | arg :: rest => arg.replace change :: replaceArgs change rest

/-- The bindings after the replacement. -/
def replaceBindings (change : Replacement) : List (String × Expr) → List (String × Expr)
  | [] => []
  | (name, value) :: rest => (name, value.replace change) :: replaceBindings change rest

end

variable {change : Replacement}

theorem replaceArgs_eq_map (args : List Expr) :
    replaceArgs change args = args.map (·.replace change) := by
  induction args with
  | nil => rfl
  | cons arg rest ih => rw [replaceArgs, ih, List.map_cons]

theorem replaceBindings_eq_map (bindings : List (String × Expr)) :
    replaceBindings change bindings =
      bindings.map fun bound ↦ (bound.1, bound.2.replace change) := by
  induction bindings with
  | nil => rfl
  | cons binding rest ih => rw [replaceBindings, ih, List.map_cons]

/-- The declaration after the replacement. -/
def Declaration.replace (change : Replacement) : Declaration → Declaration
  | function definition => .function { definition with
      pos := change.move definition.pos
      body := definition.body.replace change }
  | constant name value => .constant name (value.replace change)

/-- A function keeps its name. -/
theorem Declaration.declaresFunction_replace (name : String) (declaration : Declaration) :
    (declaration.replace change).declaresFunction name = declaration.declaresFunction name := by
  cases declaration <;> rfl

/-- The statement after the replacement. -/
def Statement.replace (change : Replacement) (statement : Statement) : Statement :=
  ⟨statement.expr.replace change, statement.declared.map (·.replace change)⟩

end Reckoner
