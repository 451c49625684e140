import Reckoner.Number.Layout
import Reckoner.Text.Literal

/-!
Values: what expressions evaluate to, and the two ways to write a value, as a result and
as a literal inside a printed expression.
-/

set_option autoImplicit false
set_option relaxedAutoImplicit false

namespace Reckoner

/-- A value. Declarations and prints evaluate to `none`. -/
inductive Value where
  | none
  | boolean (b : Bool)
  | text (content : String)
  | number (x : Float)
  deriving DecidableEq

namespace Value

/-- The name of the value's type in messages. -/
def typeName : Value → String
  | none => "none"
  | boolean _ => "boolean"
  | text _ => "string"
  | number _ => "number"

/-- Whether the value is a number. -/
def isNumber : Value → Bool
  | number _ => true
  | _ => false

/-- The text of a truth value. -/
def booleanText (b : Bool) : String :=
  if b then "True" else "False"

/-- A number as a result. Integers below `10 ^ 16` have no point. -/
def displayNumber (x : Float) : String :=
  match Number.integer? x with
  | some n => if n.natAbs < Number.tenPow 16 then Number.integerText n else Number.text x
  | Option.none => Number.text x

/-- The value as a result. The value `none` shows nothing. -/
def display : Value → String
  | none => ""
  | boolean b => booleanText b
  | text content => content
  | number x => displayNumber x

/-- The value as a literal of a printed expression. Integers have all their digits. -/
def literal : Value → String
  | none => "None"
  | boolean b => booleanText b
  | text content => Text.literal content
  | number x =>
    match Number.integer? x with
    | some n => Number.integerText n
    | Option.none => Number.text x

end Value

end Reckoner
