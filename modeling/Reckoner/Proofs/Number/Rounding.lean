import Reckoner.Number.Decimal
import Reckoner.Proofs.Number.Bits

/-!
Rounding is exact where it can be: the double nearest to the size of a finite double is that
double. Numbers that are written in different ways are rounded alike.
-/

set_option autoImplicit false
set_option relaxedAutoImplicit false

namespace Reckoner.Number

theorem unitsInOne_eq : unitsInOne = twoPow 1074 := by
  rw [unitsInOne]

theorem unitsInOne_pos : 0 < unitsInOne := twoPow_pos 1074

/-- A quotient is rounded alike in any terms. -/
theorem roundDiv_scale (num den : Nat) {factor : Nat} (h : 0 < factor) :
    roundDiv (num * factor) (den * factor) = roundDiv num den := by
  have hless (a b : Nat) : 2 * (a * factor) < b * factor ↔ 2 * a < b := by
    rw [← Nat.mul_assoc]
    exact Nat.mul_lt_mul_right h
  have hmore (a b : Nat) : b * factor < 2 * (a * factor) ↔ b < 2 * a := by
    rw [← Nat.mul_assoc]
    exact Nat.mul_lt_mul_right h
  simp only [roundDiv, Nat.mul_div_mul_right _ _ h, Nat.mul_mod_mul_right, hless, hmore]

theorem nearestBits_scale (num den factor : Nat) (h : 0 < factor) :
    nearestBits (num * factor) (den * factor) = nearestBits num den := by
  have hnum : num * factor * unitsInOne = num * unitsInOne * factor := Nat.mul_right_comm ..
  have hden (shift : Nat) : den * factor * twoPow shift = den * twoPow shift * factor :=
    Nat.mul_right_comm ..
  simp only [nearestBits, hnum, hden, Nat.mul_div_mul_right _ _ h, roundDiv_scale _ _ h]

theorem nearestBits_le (num den : Nat) : nearestBits num den ≤ infinityBits :=
  Nat.min_le_left ..

/-- The bits of a size that do not fit a significand are its power of two. -/
theorem excessBits_unitsOfBits (bits : Nat) :
    excessBits (unitsOfBits bits) = scaleOfBits bits := by
  rw [unitsOfBits, excessBits]
  by_cases hsmall : bits < 2 ^ 52
  · have hscale : scaleOfBits bits = 0 := by
      rw [scaleOfBits]
      omega
    rw [hscale, Nat.zero_mul, Nat.sub_zero, Nat.pow_zero, Nat.mul_one]
    by_cases hzero : bits = 0
    · subst hzero
      rfl
    · have hlog := (Nat.log2_lt hzero).mpr hsmall
      omega
  · have hbounds : 2 ^ 52 ≤ bits - scaleOfBits bits * 2 ^ 52 ∧
        bits - scaleOfBits bits * 2 ^ 52 < 2 ^ 53 := by
      rw [scaleOfBits]
      omega
    have hpow : 0 < 2 ^ scaleOfBits bits := Nat.two_pow_pos _
    have hlog : ((bits - scaleOfBits bits * 2 ^ 52) * 2 ^ scaleOfBits bits).log2 =
        52 + scaleOfBits bits := by
      refine (Nat.log2_eq_iff (Nat.mul_pos (by omega) hpow).ne').mpr ⟨?_, ?_⟩
      · rw [Nat.pow_add]
        exact Nat.mul_le_mul_right _ hbounds.1
      · rw [Nat.add_right_comm, Nat.pow_add]
        exact Nat.mul_lt_mul_of_pos_right hbounds.2 hpow
    omega

/-- A quotient that is the size of a finite double has the bits of that double. -/
theorem nearestBits_eq {bits num den : Nat} (hbits : bits < infinityBits) (hden : 0 < den)
    (h : num * unitsInOne = unitsOfBits bits * den) : nearestBits num den = bits := by
  have hround : roundDiv (unitsOfBits bits * den) (den * twoPow (scaleOfBits bits)) =
      bits - scaleOfBits bits * 2 ^ 52 := by
    rw [unitsOfBits, Nat.mul_assoc, Nat.mul_comm _ den]
    exact roundDiv_mul _ _ (Nat.mul_pos hden (twoPow_pos _))
  have hscale : scaleOfBits bits * 2 ^ 52 ≤ bits := by
    rw [scaleOfBits]
    omega
  have htwo : twoPow 52 = 2 ^ 52 := rfl
  simp only [nearestBits, h, Nat.mul_div_cancel _ hden, excessBits_unitsOfBits, hround, htwo]
  omega

/-- The double nearest to the size of a finite double is that double. -/
theorem nearest_of_shape {x : Float} {negative : Bool} {units num den : Nat}
    (hx : shape x = .finite negative units) (hden : 0 < den)
    (h : num * unitsInOne = units * den) : nearest negative num den = x := by
  obtain ⟨bits, hbits, rfl, rfl⟩ := exists_withSign hx
  rw [nearest, nearestBits_eq hbits hden h]

theorem unitsOfBits_inj {first second : Nat} (hfirst : first < infinityBits)
    (hsecond : second < infinityBits) (h : unitsOfBits first = unitsOfBits second) :
    first = second := by
  have hbits := nearestBits_eq hfirst unitsInOne_pos rfl
  rw [h] at hbits
  rw [← hbits, nearestBits_eq hsecond unitsInOne_pos rfl]

theorem shape_infinity (negative : Bool) : shape (infinity negative) = .infinite negative := by
  cases negative <;> decide +kernel

namespace Decimal

/-- The bits of the double that a decimal is read as do not depend on its sign. -/
theorem exists_bits (d : Decimal) :
    ∃ bits ≤ infinityBits, ∀ negative, d.toFloat negative = withSign negative bits := by
  unfold toFloat
  split
  · exact ⟨_, nearestBits_le .., fun _ ↦ rfl⟩
  · split
    · exact ⟨_, Nat.le_refl _, fun _ ↦ rfl⟩
    · split
      · exact ⟨_, nearestBits_le .., fun _ ↦ rfl⟩
      · exact ⟨_, nearestBits_le .., fun _ ↦ rfl⟩

/-- What reads as the size of a finite double reads as the double behind its sign. -/
theorem toFloat_eq_of_shape {d : Decimal} {x : Float} {negative : Bool} {units : Nat}
    (hx : shape x = .finite negative units)
    (h : shape (d.toFloat false) = .finite false units) : d.toFloat negative = x := by
  obtain ⟨bits, hbits, rfl, rfl⟩ := exists_withSign hx
  obtain ⟨found, hle, hfound⟩ := d.exists_bits
  rw [hfound] at h ⊢
  rcases Nat.lt_or_eq_of_le hle with hlt | rfl
  · rw [shape_withSign false hlt] at h
    rw [unitsOfBits_inj hlt hbits (Shape.finite.inj h).2]
  · rw [← infinity, shape_infinity] at h
    cases h

end Decimal

end Reckoner.Number
