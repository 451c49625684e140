import Reckoner.NameMap
import Reckoner.Number.Layout

/-!
Built-in functions: functions on numbers that every statement may call.
-/

set_option autoImplicit false
set_option relaxedAutoImplicit false

namespace Reckoner

/-- Why a built-in function has no value. -/
inductive BuiltinFault where
  /-- Only finite numbers whose integer part is not negative have a factorial. -/
  | noFactorial (x : Float)
  | unboundedRange
  | emptyRange (low high : Int)
  deriving DecidableEq

/-- The message, without a position. -/
def BuiltinFault.message : BuiltinFault → String
  | noFactorial x =>
    "Fact: cannot take the factorial of " ++
      match Number.truncate? x with
      | some n => Number.integerText n
      | none => Number.text x
  | unboundedRange => "Random: bounds must be finite numbers"
  | emptyRange low high =>
    "Random: lower bound " ++ Number.integerText low ++ " is greater than upper bound " ++
      Number.integerText high

/-- A built-in function. It is applied only to as many numbers as it accepts. -/
structure Builtin where
  /-- The numbers of arguments it accepts. -/
  arities : List Nat
  apply : List Float → Except BuiltinFault Float

namespace Builtin

/-- Stands for a result that is no number. -/
def notANumber : Float := 0.0 / 0.0

/-- A function of one number. -/
def unary (f : Float → Except BuiltinFault Float) : Builtin where
  arities := [1]
  apply
    | [x] => f x
    | _ => .ok notANumber

/-- A function of two numbers. -/
def binary (f : Float → Float → Except BuiltinFault Float) : Builtin where
  arities := [2]
  apply
    | [x, y] => f x y
    | _ => .ok notANumber

/-- A function of one number and another one that may be left out. -/
def unaryOrBinary (f : Float → Option Float → Except BuiltinFault Float) : Builtin where
  arities := [1, 2]
  apply
    | [x] => f x none
    | [x, y] => f x (some y)
    | _ => .ok notANumber

end Builtin

end Reckoner
