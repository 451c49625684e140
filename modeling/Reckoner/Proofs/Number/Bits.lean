import Mathlib.Data.Nat.Bitwise
import Reckoner.Number.Rounding

/-!
The bits of doubles. A double that is a number is given back by its bits, and its bits are those
it was made of. Without its sign it has the bits of a natural number up to `infinityBits`, and
`unitsOfBits` is the size that those bits write.
-/

set_option autoImplicit false
set_option relaxedAutoImplicit false

namespace Reckoner.Number

section Fields

open Float.Model (Format)
open Float.Model.UnpackedFloat

/-- The sign, the exponent and the fraction of 64 bits. -/
theorem packComponents_fields (bits : BitVec Format.binary64.numBits) :
    packComponents .binary64 (.ofBitVec (unpackSign bits)) (unpackExponent bits)
      (unpackMantissa bits) = bits := by
  have hsign : ∀ sign : BitVec 1, (Sign.ofBitVec sign).toBitVec = sign := by decide
  unfold packComponents
  rw [hsign]
  change bits.extractLsb' 63 1 ++ bits.extractLsb' 52 11 ++ bits.extractLsb' 0 52 = bits
  rw [BitVec.extractLsb'_append_extractLsb'_eq_extractLsb' (by rfl),
    BitVec.extractLsb'_append_extractLsb'_eq_extractLsb' (by rfl)]
  exact BitVec.extractLsb'_eq_self

/-- The bits of a finite size, by whether it is too large and whether it has a hidden bit. -/
theorem pack_finite (sign : Sign) (mantissa : Nat) (scale : Int) (h : 0 < mantissa) :
    pack .binary64 (.finite sign mantissa scale h) =
      let biased := (scale + Format.binary64.exponentBias +
        Format.binary64.mantissaBitsWithoutImplicit : Int).toNat
      if 2 ^ Format.binary64.exponentBits ≤ biased + 1 then packedInfinity .binary64 sign
      else if mantissa.log2 + 1 = Format.binary64.mantissaBits then
        packComponents .binary64 sign (BitVec.ofNat 11 biased) (BitVec.ofNat 52 mantissa)
      else packComponents .binary64 sign 0#11 (BitVec.ofNat 52 mantissa) := rfl

/-- Sizes below the least one with a hidden bit have the exponent zero. -/
theorem pack_subnormal (sign : Sign) {scale : Int} (fraction : BitVec 52)
    (h : 0 < fraction.toNat) (hscale : scale = -1074) :
    pack .binary64 (.finite sign fraction.toNat scale h) =
      packComponents .binary64 sign 0#11 fraction := by
  subst hscale
  have hlog : fraction.toNat.log2 < 52 := (Nat.log2_lt h.ne').mpr fraction.isLt
  have hfits : ¬ 2 ^ Format.binary64.exponentBits ≤ (-1074 + Format.binary64.exponentBias +
      Format.binary64.mantissaBitsWithoutImplicit : Int).toNat + 1 := by decide
  have hhidden : fraction.toNat.log2 + 1 ≠ Format.binary64.mantissaBits := by
    change _ ≠ 53
    omega
  rw [pack_finite, if_neg hfits, if_neg hhidden, BitVec.ofNat_toNat, BitVec.setWidth_eq]

theorem toNat_hidden (fraction : BitVec 52) :
    (1#1 ++ fraction).toNat = 2 ^ 52 + fraction.toNat := by
  rw [BitVec.toNat_append, BitVec.toNat_ofNat, Nat.shiftLeft_eq, Nat.or_comm,
    show 1 % 2 ^ 1 * 2 ^ 52 = 2 ^ 52 by rfl, Nat.or_two_pow_eq_add_of_lt fraction.isLt,
    Nat.add_comm]

/-- Sizes with a hidden bit keep their exponent. -/
theorem pack_normal (sign : Sign) {exponent : BitVec 11} {scale : Int} (fraction : BitVec 52)
    (h : 0 < (1#1 ++ fraction).toNat) (hscale : scale = exponent.toNat - 1075)
    (hones : exponent ≠ 2047#11) :
    pack .binary64 (.finite sign (1#1 ++ fraction).toNat scale h) =
      packComponents .binary64 sign exponent fraction := by
  have hfraction := fraction.isLt
  have hlog : (1#1 ++ fraction).toNat.log2 = 52 :=
    (Nat.log2_eq_iff h.ne').mpr (by rw [toNat_hidden]; omega)
  have hbiased : (scale + Format.binary64.exponentBias +
      Format.binary64.mantissaBitsWithoutImplicit).toNat = exponent.toNat := by
    change (scale + 1023 + 52).toNat = _
    omega
  have hfits : ¬ 2 ^ Format.binary64.exponentBits ≤ exponent.toNat + 1 := by
    have hlt := exponent.isLt
    have hne : exponent.toNat ≠ 2047 := fun h ↦ hones (BitVec.eq_of_toNat_eq h)
    change ¬ 2048 ≤ _
    omega
  rw [pack_finite, hbiased, if_neg hfits, hlog,
    if_pos (show 52 + 1 = Format.binary64.mantissaBits from rfl)]
  congr 1
  · exact BitVec.eq_of_toNat_eq (by simp)
  · apply BitVec.eq_of_toNat_eq
    rw [toNat_hidden, BitVec.toNat_ofNat]
    omega

/-- Taking bits apart and putting them together gives the same bits, unless they write no
number. -/
theorem pack_unpack {bits : BitVec Format.binary64.numBits}
    (h : unpackExponent bits = 2047#11 → unpackMantissa bits = 0#52) :
    pack .binary64 (unpack .binary64 bits) = bits := by
  have hfields := packComponents_fields bits
  unfold unpack
  dsimp only
  by_cases hones : unpackExponent bits = -1#11
  · rw [if_pos hones, if_pos (h hones)]
    rw [hones, h hones] at hfields
    exact hfields
  · rw [if_neg hones]
    by_cases hzero : unpackExponent bits = 0#11
    · rw [if_pos hzero]
      rw [hzero] at hfields
      by_cases hleast : unpackMantissa bits = 0#52
      · rw [dif_pos hleast]
        rw [hleast] at hfields
        exact hfields
      · rw [dif_neg hleast]
        exact (pack_subnormal _ _ _ (by rw [hzero]; rfl)).trans hfields
    · rw [if_neg hzero]
      exact (pack_normal _ _ _ rfl hones).trans hfields

end Fields

/-- The bits of a double are those it was made of, unless they write no number. -/
theorem toBits_ofBits {bits : UInt64}
    (h : bits.toNat / 2 ^ 52 % 2 ^ 11 = 2047 → bits.toNat % 2 ^ 52 = 0) :
    (Float.ofBits bits).toBits = bits := by
  have hfields : Float.Model.UnpackedFloat.pack .binary64
      (Float.Model.UnpackedFloat.unpack .binary64 bits.toBitVec) = bits.toBitVec := by
    refine pack_unpack fun hones ↦ BitVec.eq_of_toNat_eq ?_
    have hexponent : bits.toNat / 2 ^ 52 % 2 ^ 11 = 2047 := by
      have htoNat := congrArg BitVec.toNat hones
      change bits.toNat >>> 52 % 2 ^ 11 = 2047 at htoNat
      rwa [Nat.shiftRight_eq_div_pow] at htoNat
    exact h hexponent
  change UInt64.ofBitVec _ = bits
  rw [hfields]

theorem eq_of_toBits_eq {x y : Float} (h : x.toBits = y.toBits) : x = y := by
  obtain ⟨⟨xbits, hx⟩⟩ := x
  obtain ⟨⟨ybits, hy⟩⟩ := y
  cases h
  rfl

theorem infinityBits_eq : infinityBits = 2047 * 2 ^ 52 := rfl

/-- The power of two in the size that the bits of a double write. -/
def scaleOfBits (bits : Nat) : Nat := bits / 2 ^ 52 - 1

/-- The size, in units, of the double with the given bits and no sign. -/
def unitsOfBits (bits : Nat) : Nat :=
  (bits - scaleOfBits bits * 2 ^ 52) * 2 ^ scaleOfBits bits

/-- The bits of a double that is made of a sign and the bits of its size. -/
theorem toNat_toBits_withSign (negative : Bool) {bits : Nat} (h : bits ≤ infinityBits) :
    (withSign negative bits).toBits.toNat = (if negative then 2 ^ 63 else 0) + bits := by
  rw [infinityBits_eq] at h
  have hall : (if negative then twoPow 63 else 0) = if negative = true then 2 ^ 63 else 0 := rfl
  have hnat : (UInt64.ofNat ((if negative then twoPow 63 else 0) + bits)).toNat =
      (if negative then 2 ^ 63 else 0) + bits := by
    rw [hall, UInt64.toNat_ofNat']
    split <;> omega
  rw [withSign, toBits_ofBits, hnat]
  rw [hnat]
  intro hones
  cases negative <;> simp only [if_true, if_false, Bool.false_eq_true] at hones ⊢ <;> omega

/-- A finite double is made of its sign and the bits of its size. -/
theorem shape_withSign (negative : Bool) {bits : Nat} (h : bits < infinityBits) :
    shape (withSign negative bits) = .finite negative (unitsOfBits bits) := by
  have hbits := toNat_toBits_withSign negative h.le
  rw [infinityBits_eq] at h
  have hfields : shape (withSign negative bits) =
      .ofFields negative (bits / 2 ^ 52) (bits % 2 ^ 52) := by
    have hshape : shape (withSign negative bits) =
        .ofFields (2 ^ 63 ≤ (withSign negative bits).toBits.toNat)
          ((withSign negative bits).toBits.toNat / 2 ^ 52 % 2 ^ 11)
          ((withSign negative bits).toBits.toNat % 2 ^ 52) := rfl
    rw [hshape, hbits]
    cases negative with
    | false =>
      simp only [Bool.false_eq_true, if_false, Nat.zero_add]
      congr 1
      · exact decide_eq_false (by omega)
      · omega
    | true =>
      simp only [if_true]
      congr 1
      · exact decide_eq_true (by omega)
      · omega
      · omega
  have hscale : (bits - (bits / 2 ^ 52 - 1) * 2 ^ 52) * 2 ^ (bits / 2 ^ 52 - 1) =
      unitsOfBits bits := rfl
  rw [hfields, Shape.ofFields, if_neg (by omega), ← hscale]
  split
  · next hzero =>
    rw [hzero, Nat.mod_eq_of_lt (by omega), Nat.zero_sub, Nat.zero_mul, Nat.sub_zero,
      Nat.pow_zero, Nat.mul_one]
  · next hzero =>
    have hhidden : twoPow 52 + bits % 2 ^ 52 = bits - (bits / 2 ^ 52 - 1) * 2 ^ 52 := by
      change 2 ^ 52 + _ = _
      omega
    rw [hhidden]
    rfl

/-- A finite double is its sign with the bits of its size. -/
theorem exists_withSign {x : Float} {negative : Bool} {units : Nat}
    (h : shape x = .finite negative units) :
    ∃ bits < infinityBits, x = withSign negative bits ∧ units = unitsOfBits bits := by
  have hlt := x.toBits.toNat_lt
  have hshape : shape x = .ofFields (2 ^ 63 ≤ x.toBits.toNat) (x.toBits.toNat / 2 ^ 52 % 2 ^ 11)
      (x.toBits.toNat % 2 ^ 52) := rfl
  have hexponent : x.toBits.toNat / 2 ^ 52 % 2 ^ 11 ≠ 2047 := by
    intro hones
    rw [hshape, hones, Shape.ofFields, if_pos rfl] at h
    split at h <;> cases h
  have hnegative : negative = decide (2 ^ 63 ≤ x.toBits.toNat) := by
    rw [hshape, Shape.ofFields, if_neg hexponent] at h
    split at h <;> cases h <;> rfl
  have hsize : x.toBits.toNat % 2 ^ 63 < infinityBits := by
    rw [infinityBits_eq]
    omega
  have hwhole : x = withSign negative (x.toBits.toNat % 2 ^ 63) := by
    apply eq_of_toBits_eq
    apply UInt64.toNat_inj.mp
    rw [toNat_toBits_withSign negative hsize.le, hnegative]
    simp only [decide_eq_true_eq]
    split <;> omega
  refine ⟨_, hsize, hwhole, ?_⟩
  have hsame := shape_withSign negative hsize
  rw [← hwhole, h] at hsame
  cases hsame
  rfl

theorem twoPow_mul_le {a b c d : Nat} (h : a + b ≤ c + d) :
    twoPow a * twoPow b ≤ twoPow c * twoPow d := by
  change 2 ^ a * 2 ^ b ≤ 2 ^ c * 2 ^ d
  rw [← Nat.pow_add, ← Nat.pow_add]
  exact Nat.pow_le_pow_right (by decide) h

theorem twoPow_dvd_unitsOfBits {bits count : Nat} (h : count ≤ scaleOfBits bits) :
    twoPow count ∣ unitsOfBits bits :=
  (Nat.pow_dvd_pow 2 h).mul_left _

/-- A size has 53 bits and those of its power of two. -/
theorem unitsOfBits_lt_mul {bits count : Nat} (h : 53 + scaleOfBits bits ≤ count + 1074) :
    unitsOfBits bits < twoPow count * unitsInOne := by
  have hsignificand : bits - scaleOfBits bits * 2 ^ 52 < 2 ^ 53 := by
    rw [scaleOfBits]
    omega
  calc unitsOfBits bits
      < twoPow 53 * twoPow (scaleOfBits bits) :=
        Nat.mul_lt_mul_of_pos_right hsignificand (Nat.two_pow_pos _)
    _ ≤ twoPow count * unitsInOne := twoPow_mul_le h

theorem unitsOfBits_lt {bits : Nat} (h : bits < infinityBits) :
    unitsOfBits bits < twoPow 1024 * unitsInOne := by
  apply unitsOfBits_lt_mul
  rw [infinityBits_eq] at h
  rw [scaleOfBits]
  omega

/-- A size with a fractional part has at most 52 bits before the point. -/
theorem unitsOfBits_lt_of_fractional {bits : Nat} (h : unitsOfBits bits % unitsInOne ≠ 0) :
    unitsOfBits bits < twoPow 52 * unitsInOne := by
  apply unitsOfBits_lt_mul
  by_contra hlarge
  have hdvd : unitsInOne ∣ unitsOfBits bits := twoPow_dvd_unitsOfBits (by omega)
  exact h (Nat.mod_eq_zero_of_dvd hdvd)

end Reckoner.Number
