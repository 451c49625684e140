import Reckoner.Number.Integer

/-!
Doubles as exact numbers. Every finite double is a whole multiple of `2 ^ -1074`, the
least positive one, so its size is a natural number of such units and no arithmetic on
exponents is needed to compare, truncate or print it.
-/

set_option autoImplicit false
set_option relaxedAutoImplicit false

namespace Reckoner.Number

/-- The number of units in one: a finite double of `n` units has the size `n / unitsInOne`. -/
def unitsInOne : Nat := twoPow 1074

/-- What a double stands for. A finite one is a sign and a number of units. -/
inductive Shape where
  | nan
  | infinite (negative : Bool)
  | finite (negative : Bool) (units : Nat)
  deriving DecidableEq, Repr

/-- The double with the given fields: a sign, a biased exponent below 2048 and a fraction
below `2 ^ 52`. Exponent zero has no hidden bit. -/
def Shape.ofFields (negative : Bool) (exponent fraction : Nat) : Shape :=
  if exponent = 2047 then
    if fraction = 0 then .infinite negative else .nan
  else if exponent = 0 then
    .finite negative fraction
  else
    .finite negative ((twoPow 52 + fraction) * twoPow (exponent - 1))

/-- The shape of a double, read off its bits. -/
def shape (x : Float) : Shape :=
  let bits := x.toBits.toNat
  .ofFields (twoPow 63 ≤ bits) (bits / twoPow 52 % twoPow 11) (bits % twoPow 52)

/-- The integer part of a finite double, cut off toward zero. -/
def truncate? (x : Float) : Option Int :=
  match shape x with
  | .finite negative units =>
    let whole : Int := (units / unitsInOne : Nat)
    some (if negative then -whole else whole)
  | _ => none

/-- The value of a double that is an integer. Both zeros have the value zero. -/
def integer? (x : Float) : Option Int :=
  match shape x with
  | .finite _ units => if units % unitsInOne = 0 then truncate? x else none
  | _ => none

end Reckoner.Number
