import Reckoner.Declarations
import Reckoner.Evaluation.Operation
import Reckoner.Fault

/-!
Evaluation of expressions. There is one environment of variables: a `let` binds in it for
all that follows, and a call of a declared function binds the parameters in it and puts it
back as it was, so a body sees what its caller had bound. An evaluation that fails leaves
the environment as it was at that moment.
-/

set_option autoImplicit false
set_option relaxedAutoImplicit false

namespace Reckoner

/-- The variables and their values. -/
abbrev Env := NameMap Value

/-- An evaluation: from an environment to a result and the environment it leaves. -/
abbrev Evaluation := ExceptT (Fault EvalError) (StateM Env)

namespace Evaluation

/-- Fails at a position. -/
def fail {α : Type} (cause : EvalError.Cause) (pos : Pos) : Evaluation α :=
  throw (.error ⟨cause, pos⟩)

/-- Binds a variable. -/
def bindVariable (name : String) (value : Value) : Evaluation Unit :=
  modify fun env ↦ env.insert name value

/-- Evaluates and puts the environment back, whether there is a result or not. -/
def restoring {α : Type} (evaluation : Evaluation α) : Evaluation α :=
  fun env ↦ ((evaluation.run.run env).1, env)

/-- Evaluates and binds one after the other, so that each binding sees those before it. -/
def bindAll (evaluate : Expr → Evaluation Value) : List (String × Expr) → Evaluation Unit
  | [] => return ()
  | (name, expr) :: rest => do
    let value ← evaluate expr
    bindVariable name value
    bindAll evaluate rest

/-- Evaluates arguments that must be numbers. -/
def numbers (evaluate : Expr → Evaluation Value) (function : String) (pos : Pos) :
    List Expr → Evaluation (List Float)
  | [] => return []
  | arg :: rest => do
    match ← evaluate arg with
    | .number x =>
      let others ← numbers evaluate function pos rest
      return x :: others
    | value => fail (.invalidArgument function value) pos

/-- Calls a declared function. -/
def userCall (evaluate : Expr → Evaluation Value) (declarations : Declarations) (pos : Pos)
    (name : String) (args : List Expr) : Evaluation Value :=
  match declarations.functions.find? name with
  | none => fail (.undefinedFunction name) pos
  | some function =>
    if function.parameters.length ≠ args.length then
      fail (.wrongArity name [function.parameters.length] args.length) pos
    else
      restoring do
        bindAll evaluate (function.parameters.zip args)
        evaluate function.body

/-- Calls a built-in function. -/
def builtinCall (evaluate : Expr → Evaluation Value) (declarations : Declarations) (pos : Pos)
    (name : String) (args : List Expr) : Evaluation Value :=
  match declarations.builtins.find? name with
  | none => fail (.undefinedFunction name) pos
  | some builtin =>
    if builtin.arities.contains args.length then do
      let xs ← numbers evaluate name pos args
      match builtin.apply xs with
      | .ok x => return .number x
      | .error fault => fail (.builtin fault) pos
    else
      fail (.wrongArity name builtin.arities args.length) pos

/-- The value of a name: of the variable, or else of the constant, whose expression is
evaluated anew each time. -/
def access (evaluate : Expr → Evaluation Value) (declarations : Declarations) (pos : Pos)
    (name : String) : Evaluation Value := do
  match (← get).find? name with
  | some value => return value
  | none =>
    match declarations.constants.find? name with
    | some expr => evaluate expr
    | none => fail (.undefinedVariable name) pos

/-- Evaluates an expression with at most `depth` evaluations inside each other. -/
def expression (declarations : Declarations) : Nat → Expr → Evaluation Value
  | 0, _ => throw .tooDeep
  | _ + 1, .literal _ value => return value
  | depth + 1, .access pos name => access (expression declarations depth) declarations pos name
  | depth + 1, .binary pos op left right => do
    let leftValue ← expression declarations depth left
    let rightValue ← expression declarations depth right
    match op.apply leftValue rightValue with
    | .ok value => return value
    | .error cause => fail cause pos
  | depth + 1, .ifThenElse pos condition thenBranch elseBranch => do
    match ← expression declarations depth condition with
    | .boolean true => expression declarations depth thenBranch
    | .boolean false => expression declarations depth elseBranch
    | value => fail (.conditionNotBoolean value) pos
  | depth + 1, .letIn _ name value body => do
    bindAll (expression declarations depth) [(name, value)]
    expression declarations depth body
  | depth + 1, .letGroup _ bindings body => do
    bindAll (expression declarations depth) bindings
    expression declarations depth body
  | depth + 1, .userCall pos name args =>
    userCall (expression declarations depth) declarations pos name args
  | depth + 1, .builtinCall pos name args =>
    builtinCall (expression declarations depth) declarations pos name args
  | _ + 1, .function _ _ _ _ => return .none
  | _ + 1, .endMarker _ => return .none

end Evaluation

/-- Evaluates an expression in an environment: the result, and the environment afterwards. -/
def evaluate (limit : Nat) (declarations : Declarations) (expr : Expr) (env : Env) :
    Except (Fault EvalError) Value × Env :=
  (Evaluation.expression declarations limit expr).run.run env

end Reckoner
