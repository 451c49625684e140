import Reckoner.Evaluation.Error

/-!
What operators do. Numbers can be calculated with and compared, texts can be joined and
told apart; no operator takes anything else, and none takes operands of two kinds.
-/

set_option autoImplicit false
set_option relaxedAutoImplicit false

namespace Reckoner

namespace Operator

/-- The result on two numbers. Comparisons with something that is no number are false, and
it differs from everything. -/
def onNumbers? (x y : Float) : Operator → Option Value
  | add => some (.number (x + y))
  | sub => some (.number (x - y))
  | mul => some (.number (x * y))
  | div => some (.number (x / y))
  | pow => some (.number (x.pow y))
  | lt => some (.boolean (x < y))
  | gt => some (.boolean (y < x))
  | le => some (.boolean (x ≤ y))
  | ge => some (.boolean (y ≤ x))
  | eq => some (.boolean (x == y))
  | ne => some (.boolean (x != y))
  | unknown _ => none

/-- The result on two texts. -/
def onTexts? (left right : String) : Operator → Option Value
  | add => some (.text (left ++ right))
  | eq => some (.boolean (left == right))
  | ne => some (.boolean (left != right))
  | _ => none

/-- The result on two values. -/
def apply (op : Operator) (left right : Value) : Except EvalError.Cause Value :=
  match left, right with
  | .number x, .number y =>
    match op.onNumbers? x y with
    | some value => .ok value
    | none => .error (.unknownOperator op.text)
  | .text first, .text second =>
    match op.onTexts? first second with
    | some value => .ok value
    | none => .error (.invalidOperands op left right)
  | _, _ => .error (.invalidOperands op left right)

end Operator

end Reckoner
