import Reckoner.Number.Integer
import Reckoner.Number.Rounding

/-!
Finite decimal fractions and the doubles nearest to them.
-/

set_option autoImplicit false
set_option relaxedAutoImplicit false

namespace Reckoner.Number

/-- The number `coefficient * 10 ^ exponent`. -/
structure Decimal where
  coefficient : Nat
  exponent : Int
  deriving DecidableEq, Repr

namespace Decimal

/-- The exponent of the power of ten next above the number: its digits begin just after
the point in `0.ddd * 10 ^ point`. -/
def point (d : Decimal) : Int :=
  (digits d.coefficient).length + d.exponent

/-- The double nearest to the number. Exponents far outside the range of doubles are
answered without writing out the power of ten. -/
def toFloat (negative : Bool) (d : Decimal) : Float :=
  if d.coefficient = 0 ∨ d.point < -400 then nearest negative 0 1
  else if 400 < d.point then infinity negative
  else if 0 ≤ d.exponent then nearest negative (d.coefficient * tenPow d.exponent.toNat) 1
  else nearest negative d.coefficient (tenPow (-d.exponent).toNat)

/-- The exact value of a number of units, as a decimal. -/
def ofUnits (units : Nat) : Decimal :=
  ⟨units * fivePow 1074, -1074⟩

/-- Moves a zero at the end of the coefficient into the exponent, at most `count` times. -/
def dropZeros : Nat → Decimal → Decimal
  | 0, d => d
  | count + 1, d =>
    if d.coefficient % 10 = 0 then dropZeros count ⟨d.coefficient / 10, d.exponent + 1⟩ else d

/-- The same number with a coefficient that does not end in zero. -/
def normalize (d : Decimal) : Decimal :=
  if d.coefficient = 0 then ⟨0, 0⟩ else dropZeros d.coefficient.log2 d

end Decimal

end Reckoner.Number
