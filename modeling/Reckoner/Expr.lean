import Reckoner.Operator
import Reckoner.Position
import Reckoner.Value

/-!
Expressions, the trees that statements are read into and that evaluation walks over.
Every node carries the position that messages about it point at.
-/

set_option autoImplicit false
set_option relaxedAutoImplicit false

namespace Reckoner

/-- An expression. -/
inductive Expr where
  | literal (pos : Pos) (value : Value)
  /-- A variable or constant. -/
  | access (pos : Pos) (name : String)
  | binary (pos : Pos) (op : Operator) (left right : Expr)
  | ifThenElse (pos : Pos) (condition thenBranch elseBranch : Expr)
  | letIn (pos : Pos) (name : String) (value body : Expr)
  /-- Bindings made one after the other, then a body. -/
  | letGroup (pos : Pos) (bindings : List (String × Expr)) (body : Expr)
  /-- A call of a declared function. -/
  | userCall (pos : Pos) (name : String) (args : List Expr)
  /-- A call of a function from the table of built-in ones. -/
  | builtinCall (pos : Pos) (name : String) (args : List Expr)
  /-- A function declaration in place of an expression. -/
  | function (pos : Pos) (name : String) (parameters : List String) (body : Expr)
  /-- What is left of a declaration or a print once it has been read. -/
  | endMarker (pos : Pos)

/-- The position of an expression. -/
def Expr.pos : Expr → Pos
  | literal pos _ => pos
  | access pos _ => pos
  | binary pos _ _ _ => pos
  | ifThenElse pos _ _ _ => pos
  | letIn pos _ _ _ => pos
  | letGroup pos _ _ => pos
  | userCall pos _ _ => pos
  | builtinCall pos _ _ => pos
  | function pos _ _ _ => pos
  | endMarker pos => pos

/-- A declared function. -/
structure FunctionDef where
  pos : Pos
  name : String
  parameters : List String
  body : Expr

/-- The declaration of the function. -/
def FunctionDef.toExpr (function : FunctionDef) : Expr :=
  .function function.pos function.name function.parameters function.body

/-- Induction over expressions with a hypothesis for every argument and every bound
expression. -/
theorem Expr.inductionOn {motive : Expr → Prop} (expr : Expr)
    (literal : ∀ pos value, motive (.literal pos value))
    (access : ∀ pos name, motive (.access pos name))
    (binary : ∀ pos op left right, motive left → motive right →
      motive (.binary pos op left right))
    (ifThenElse : ∀ pos condition thenBranch elseBranch, motive condition → motive thenBranch →
      motive elseBranch → motive (.ifThenElse pos condition thenBranch elseBranch))
    (letIn : ∀ pos name value body, motive value → motive body →
      motive (.letIn pos name value body))
    (letGroup : ∀ pos bindings body, (∀ binding ∈ bindings, motive binding.2) → motive body →
      motive (.letGroup pos bindings body))
    (userCall : ∀ pos name args, (∀ arg ∈ args, motive arg) → motive (.userCall pos name args))
    (builtinCall : ∀ pos name args, (∀ arg ∈ args, motive arg) →
      motive (.builtinCall pos name args))
    (function : ∀ pos name parameters body, motive body →
      motive (.function pos name parameters body))
    (endMarker : ∀ pos, motive (.endMarker pos)) : motive expr :=
  @Expr.rec motive (fun bindings ↦ ∀ binding ∈ bindings, motive binding.2)
    (fun args ↦ ∀ arg ∈ args, motive arg) (fun binding ↦ motive binding.2)
    literal access binary ifThenElse letIn letGroup userCall builtinCall function endMarker
    (fun _ h ↦ absurd h List.not_mem_nil)
    (fun _ _ hhead htail _ h ↦ (List.mem_cons.mp h).elim (fun e ↦ e ▸ hhead) (htail _))
    (fun _ h ↦ absurd h List.not_mem_nil)
    (fun _ _ hhead htail _ h ↦ (List.mem_cons.mp h).elim (fun e ↦ e ▸ hhead) (htail _))
    (fun _ _ h ↦ h) expr

end Reckoner
