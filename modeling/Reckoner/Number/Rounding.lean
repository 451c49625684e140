import Reckoner.Number.Binary

/-!
The double nearest to a quotient of natural numbers. Of two doubles at the same distance
the one with the even significand is taken; sizes from `2 ^ 1024 - 2 ^ 970` on give infinity.
-/

set_option autoImplicit false
set_option relaxedAutoImplicit false

namespace Reckoner.Number

/-- The integer nearest to a quotient, of two equally near ones the even one. -/
def roundDiv (num den : Nat) : Nat :=
  let whole := num / den
  let rest := num % den
  if 2 * rest < den then whole
  else if den < 2 * rest then whole + 1
  else whole + whole % 2

/-- How many bits of a whole number of units do not fit a significand of 53 bits. -/
def excessBits (units : Nat) : Nat :=
  units.log2 - 52

/-- The bits of infinity without a sign. -/
def infinityBits : Nat := 2047 * twoPow 52

/-- The bits, without a sign, of the double nearest to the quotient. A significand that
rounds up to `2 ^ 53` carries into the exponent by itself. -/
def nearestBits (num den : Nat) : Nat :=
  let shift := excessBits (num * unitsInOne / den)
  min infinityBits (shift * twoPow 52 + roundDiv (num * unitsInOne) (den * twoPow shift))

/-- The double with the given sign and the given bits otherwise. -/
def withSign (negative : Bool) (bits : Nat) : Float :=
  Float.ofBits (UInt64.ofNat ((if negative then twoPow 63 else 0) + bits))

/-- The infinite double with the given sign. -/
def infinity (negative : Bool) : Float :=
  withSign negative infinityBits

/-- The double nearest to the quotient, with the given sign. -/
def nearest (negative : Bool) (num den : Nat) : Float :=
  withSign negative (nearestBits num den)

/-- The double nearest to an integer. -/
def ofInteger (n : Int) : Float :=
  nearest (n < 0) n.natAbs 1

/-- A rounded quotient is at most half away from the quotient. -/
theorem roundDiv_within (num den : Nat) (h : 0 < den) :
    2 * num ≤ 2 * (den * roundDiv num den) + den ∧
      2 * (den * roundDiv num den) ≤ 2 * num + den := by
  have hsplit := Nat.div_add_mod num den
  have hlt := Nat.mod_lt num h
  unfold roundDiv
  dsimp only
  split
  · omega
  · split
    · rw [Nat.mul_add]
      omega
    · rcases Nat.mod_two_eq_zero_or_one (num / den) with hpar | hpar <;>
        rw [hpar, Nat.mul_add] <;> omega

/-- A quotient without remainder is its own rounding. -/
theorem roundDiv_mul (n den : Nat) (h : 0 < den) : roundDiv (n * den) den = n := by
  simp [roundDiv, Nat.mul_div_cancel _ h, h]

end Reckoner.Number
