import Reckoner.Proofs.Number.Rounding

/-!
Decimals that write the same number. Zeros at the end of a coefficient change neither what a
decimal is read as nor where its point is.
-/

set_option autoImplicit false
set_option relaxedAutoImplicit false

namespace Reckoner.Number

theorem tenPow_eq (n : Nat) : tenPow n = 10 ^ n := rfl

theorem tenPow_pos (n : Nat) : 0 < tenPow n := Nat.pow_pos (by decide)

/-! ### Digits -/

theorem length_digits_pos (n : Nat) : 0 < (digits n).length := Nat.length_toDigits_pos

theorem length_digits_le_iff {n count : Nat} (h : 0 < count) :
    (digits n).length ≤ count ↔ n < tenPow count :=
  Nat.length_toDigits_le_iff (by decide) h

theorem lt_length_digits {n count : Nat} (h : tenPow count ≤ n) : count < (digits n).length := by
  rcases Nat.eq_zero_or_pos count with rfl | hcount
  · exact length_digits_pos n
  · have hiff := length_digits_le_iff (n := n) hcount
    omega

theorem digits_mul_ten {n : Nat} (h : 0 < n) : digits (n * 10) = digits n ++ ['0'] := by
  have hdigits := Nat.toDigits_append_toDigits (b := 10) (d := 0) (by decide) h (by decide)
  rw [Nat.toDigits_zero, Nat.add_zero, Nat.mul_comm] at hdigits
  exact hdigits.symm

namespace Decimal

/-! ### Zeros at the end of the coefficient -/

theorem point_mul_ten {coefficient : Nat} (exponent : Int) (h : 0 < coefficient) :
    point ⟨coefficient * 10, exponent - 1⟩ = point ⟨coefficient, exponent⟩ := by
  simp only [point, digits_mul_ten h, List.length_append, List.length_singleton]
  omega

theorem toFloat_mul_ten (negative : Bool) (coefficient : Nat) (exponent : Int) :
    toFloat negative ⟨coefficient * 10, exponent - 1⟩ =
      toFloat negative ⟨coefficient, exponent⟩ := by
  rcases Nat.eq_zero_or_pos coefficient with rfl | hpos
  · simp [toFloat]
  · have hne : coefficient * 10 ≠ 0 := by omega
    simp only [toFloat, point_mul_ten exponent hpos, hne, hpos.ne', tenPow_eq]
    split
    · rfl
    · split
      · rfl
      · rcases Int.lt_trichotomy exponent 0 with hsign | rfl | hsign
        · rw [if_neg (by omega), if_neg (by omega)]
          have hpow : (10 : Nat) ^ (-(exponent - 1)).toNat = 10 ^ (-exponent).toNat * 10 := by
            rw [← Nat.pow_succ]
            congr 1
            omega
          rw [hpow, nearest, nearest, nearestBits_scale _ _ _ (by decide)]
        · rw [if_neg (by decide), if_pos (by decide)]
          have hbits := nearestBits_scale coefficient 1 10 (by decide)
          rw [Nat.one_mul] at hbits
          simp [nearest, hbits]
        · rw [if_pos (by omega), if_pos (by omega)]
          have hpow : (10 : Nat) ^ exponent.toNat = 10 * 10 ^ (exponent - 1).toNat := by
            rw [← Nat.pow_succ']
            congr 1
            omega
          rw [hpow, Nat.mul_assoc]

theorem toFloat_mul_pow (negative : Bool) (coefficient : Nat) (exponent : Int) (count : Nat) :
    toFloat negative ⟨coefficient * 10 ^ count, exponent - count⟩ =
      toFloat negative ⟨coefficient, exponent⟩ := by
  induction count with
  | zero => simp
  | succ count ih =>
    have hexponent : exponent - (count + 1 : Nat) = exponent - count - 1 := by omega
    rw [Nat.pow_succ, ← Nat.mul_assoc, hexponent, toFloat_mul_ten, ih]

theorem toFloat_dropZeros (negative : Bool) (count : Nat) (d : Decimal) :
    (dropZeros count d).toFloat negative = d.toFloat negative := by
  induction count generalizing d with
  | zero => rfl
  | succ count ih =>
    unfold dropZeros
    split
    · next hzero =>
      rw [ih, ← toFloat_mul_ten, Nat.div_mul_cancel (Nat.dvd_of_mod_eq_zero hzero),
        Int.add_sub_cancel]
    · rfl

theorem point_dropZeros {count : Nat} {d : Decimal} (h : d.coefficient ≠ 0) :
    (dropZeros count d).point = d.point := by
  induction count generalizing d with
  | zero => rfl
  | succ count ih =>
    unfold dropZeros
    split
    · next hzero =>
      have hpos : 0 < d.coefficient / 10 := by omega
      rw [ih hpos.ne', ← point_mul_ten _ hpos,
        Nat.div_mul_cancel (Nat.dvd_of_mod_eq_zero hzero), Int.add_sub_cancel]
    · rfl

theorem toFloat_normalize (negative : Bool) (d : Decimal) :
    d.normalize.toFloat negative = d.toFloat negative := by
  unfold normalize
  split
  · next hzero => simp [toFloat, hzero]
  · exact toFloat_dropZeros negative _ d

theorem point_normalize (d : Decimal) : d.normalize.point = d.point ∨ d.normalize.point = 1 := by
  unfold normalize
  split
  · exact .inr rfl
  · next hne => exact .inl (point_dropZeros hne)

end Decimal

end Reckoner.Number
