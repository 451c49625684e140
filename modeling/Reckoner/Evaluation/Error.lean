import Reckoner.Builtin
import Reckoner.Operator
import Reckoner.Position
import Reckoner.Value

/-!
What can go wrong while an expression is evaluated.
-/

set_option autoImplicit false
set_option relaxedAutoImplicit false

namespace Reckoner

/-- Why an expression has no value. -/
inductive EvalError.Cause where
  | undefinedVariable (name : String)
  | undefinedFunction (name : String)
  /-- A call with a number of arguments that the function does not accept. -/
  | wrongArity (function : String) (accepted : List Nat) (given : Nat)
  | conditionNotBoolean (value : Value)
  | invalidOperands (op : Operator) (left right : Value)
  /-- A built-in function was given something that is no number. -/
  | invalidArgument (function : String) (value : Value)
  | unknownOperator (text : String)
  | builtin (fault : BuiltinFault)
  deriving DecidableEq

/-- An expression without a value, and the position of the node where that shows. -/
structure EvalError where
  cause : EvalError.Cause
  pos : Pos
  deriving DecidableEq

namespace EvalError

/-- The message, without its position. -/
def detail (error : EvalError) : String :=
  match error.cause with
  | .undefinedVariable name => "undefined variable: " ++ name
  | .undefinedFunction name => "undefined function: " ++ name
  | .wrongArity function accepted given =>
    "call " ++ function ++ ": want " ++
      " or ".intercalate (accepted.map fun n : Nat ↦ Number.integerText n) ++
      ", got " ++ Number.integerText given ++ " args"
  | .conditionNotBoolean value => "if condition must be a boolean, got " ++ value.typeName
  | .invalidOperands op left right =>
    "invalid operands for operator " ++ op.text ++ ": " ++ left.typeName ++ " and " ++
      right.typeName
  | .invalidArgument function value =>
    "call " ++ function ++ ": arguments must be numbers, got " ++ value.typeName
  | .unknownOperator text => "unknown operator: " ++ text
  | .builtin fault => fault.message

/-- The message, behind its position where that is known. -/
def message (error : EvalError) : String :=
  if error.pos.isKnown then error.pos.text ++ ": " ++ error.detail else error.detail

end EvalError

end Reckoner
