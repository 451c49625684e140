import Reckoner.Number.Decimal

/-!
The shortest decimal of a double: the fewest digits that read back as the same double,
and of these the nearest to it. Candidates with a given number of digits are the two
neighbours of the double on the decimal grid, so each count of digits needs two tests.
-/

set_option autoImplicit false
set_option relaxedAutoImplicit false

namespace Reckoner.Number

/-- Whether the decimal reads as the positive double of the given size. -/
def readsBack (units : Nat) (d : Decimal) : Bool :=
  shape (d.toFloat false) == .finite false units

/-- The exponent of the power of ten next above a positive size. -/
def decimalPoint (units : Nat) : Int :=
  if unitsInOne ≤ units then (digits (units / unitsInOne)).length
  else 1 - ((digits (unitsInOne / units)).length : Int)

/-- The size counted in steps of `10 ^ exponent`, as a quotient. -/
def gridQuotient (units : Nat) (exponent : Int) : Nat × Nat :=
  if 0 ≤ exponent then (units, unitsInOne * tenPow exponent.toNat)
  else (units * tenPow (-exponent).toNat, unitsInOne)

/-- The decimal of `count` digits that reads back, if there is one. Of two the nearer is
taken, and of two equally near ones the even one. -/
def candidate? (units count : Nat) : Option Decimal :=
  let exponent := decimalPoint units - count
  let (num, den) := gridQuotient units exponent
  let below : Decimal := ⟨num / den, exponent⟩
  let above : Decimal := ⟨num / den + 1, exponent⟩
  let nearer : Decimal := ⟨roundDiv num den, exponent⟩
  match readsBack units below, readsBack units above with
  | true, true => some nearer
  | true, false => some below
  | false, true => some above
  | false, false => none

/-- The shortest decimal that reads back as the positive double of the given size. Seventeen
digits always suffice; past them the exact value would be written. -/
def shortest (units : Nat) : Decimal :=
  (((List.range' 1 17).findSome? (candidate? units)).getD (.ofUnits units)).normalize

end Reckoner.Number
