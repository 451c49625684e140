import Reckoner.Expr

/-!
Expressions as text. Operations stand between parentheses, so a printed expression shows
how its source was understood.
-/

set_option autoImplicit false
set_option relaxedAutoImplicit false

namespace Reckoner

/-- Texts with a comma and a space between them. -/
def commaSeparated (texts : List String) : String :=
  ", ".intercalate texts

mutual

/-- The text of an expression. -/
def Expr.render : Expr → String
  | .literal _ value => value.literal
  | .access _ name => name
  | .binary _ op left right => "(" ++ left.render ++ " " ++ op.text ++ " " ++ right.render ++ ")"
  | .ifThenElse _ condition thenBranch elseBranch =>
    "if " ++ condition.render ++ " then " ++ thenBranch.render ++ " else " ++ elseBranch.render
  | .letIn _ name value body => "let " ++ name ++ " = " ++ value.render ++ " in " ++ body.render
  | .letGroup _ bindings body =>
    "let -> \x7b " ++ commaSeparated (renderBindings bindings) ++ " \x7d in " ++ body.render
  | .userCall _ name args => name ++ "(" ++ commaSeparated (renderArgs args) ++ ")"
  | .builtinCall _ name args => name ++ "(" ++ commaSeparated (renderArgs args) ++ ")"
  | .function _ name parameters body =>
    "function " ++ name ++ "(" ++ commaSeparated parameters ++ ") => " ++ body.render
  | .endMarker _ => "<end>"

/-- The texts of arguments. -/
def renderArgs : List Expr → List String
  | [] => []
  | arg :: rest => arg.render :: renderArgs rest

/-- The texts of bindings. -/
def renderBindings : List (String × Expr) → List String
  | [] => []
  | (name, value) :: rest => (name ++ " = " ++ value.render) :: renderBindings rest

end

theorem renderArgs_eq_map (args : List Expr) : renderArgs args = args.map Expr.render := by
  induction args with
  | nil => simp [renderArgs]
  | cons arg rest ih => simp [renderArgs, ih]

theorem renderBindings_eq_map (bindings : List (String × Expr)) :
    renderBindings bindings = bindings.map fun binding ↦
      binding.1 ++ " = " ++ binding.2.render := by
  induction bindings with
  | nil => simp [renderBindings]
  | cons binding rest ih => simp [renderBindings, ih]

/-- The text of a declared function. -/
def FunctionDef.render (function : FunctionDef) : String :=
  function.toExpr.render

end Reckoner
