import Mathlib.Algebra.Order.Ring.Nat
import Mathlib.Order.Monotone.Basic
import Reckoner.Proofs.Number.Rounding

/-!
Correct rounding. The double nearest to a quotient is as near to it as any finite double, and of
two that are equally near it has the even significand; from the overflow bound on it is infinite.
The finite doubles around a quotient are neighbours on a grid whose step is a power of two, so
that no double is missed by rounding on the grid.
-/

set_option autoImplicit false
set_option relaxedAutoImplicit false

namespace Reckoner.Number

/-- The number from which on all are infinite once they are rounded. It is halfway between the
greatest finite double and the power of two that would come next. -/
def overflowBound : Nat := twoPow 1024 - twoPow 970

/-- The value of a finite double in units. -/
def signed (negative : Bool) (units : Nat) : Int :=
  if negative then -units else units

/-- How far a quotient is from a value in units, times the denominator. -/
def distance (num den : Nat) (value : Int) : Nat :=
  ((num * unitsInOne : Nat) - value * den).natAbs

/-- The double is the quotient correctly rounded. -/
structure Rounds (num den : Nat) (x : Float) : Prop where
  overflow : overflowBound * den ≤ num → x = infinity false
  finite : num < overflowBound * den → ∃ units, shape x = .finite false units ∧
    ∀ y negative others, shape y = .finite negative others →
      distance num den units ≤ distance num den (signed negative others) ∧
      (distance num den units = distance num den (signed negative others) →
        signed negative others ≠ units → x.toBits.toNat % 2 = 0)

/-! ### Rounding on a grid -/

theorem roundDiv_cases (num den : Nat) :
    2 * (num % den) < den ∧ roundDiv num den = num / den ∨
      den < 2 * (num % den) ∧ roundDiv num den = num / den + 1 ∨
      2 * (num % den) = den ∧ roundDiv num den = num / den + num / den % 2 := by
  unfold roundDiv
  dsimp only
  split
  · exact .inl ⟨‹_›, rfl⟩
  · split
    · exact .inr (.inl ⟨‹_›, rfl⟩)
    · exact .inr (.inr ⟨by omega, rfl⟩)

/-- A rounded quotient is as near as any value that is not strictly between its neighbours on the
grid, and even if another one is as near. -/
theorem roundDiv_nearest {num den : Nat} {other : Int} (hden : 0 < den)
    (hother : other ≤ (num / den * den : Nat) ∨ ((num / den + 1) * den : Nat) ≤ other) :
    (num - (roundDiv num den * den : Nat) : Int).natAbs ≤ (num - other).natAbs ∧
      ((num - (roundDiv num den * den : Nat) : Int).natAbs = (num - other).natAbs →
        other ≠ (roundDiv num den * den : Nat) → roundDiv num den % 2 = 0) := by
  have hsplit := Nat.div_add_mod' num den
  have hlt := Nat.mod_lt num hden
  rw [Nat.add_mul, Nat.one_mul] at hother
  rcases roundDiv_cases num den with ⟨hnear, hround⟩ | ⟨hnear, hround⟩ | ⟨hnear, hround⟩
  · rw [hround]
    omega
  · rw [hround, Nat.add_mul, Nat.one_mul]
    omega
  · rw [hround]
    rcases Nat.mod_two_eq_zero_or_one (num / den) with hparity | hparity
    · rw [hparity, Nat.add_zero]
      omega
    · rw [hparity, Nat.add_mul, Nat.one_mul]
      omega

/-- Rounding goes beyond an odd integer from halfway to the next one on. -/
theorem lt_roundDiv_iff {num den odd : Nat} (hden : 0 < den) (hodd : odd % 2 = 1) :
    odd < roundDiv num den ↔ (2 * odd + 1) * den ≤ 2 * num := by
  have hsplit := Nat.div_add_mod' num den
  have hlt := Nat.mod_lt num hden
  have hcases := roundDiv_cases num den
  rw [Nat.add_mul, Nat.one_mul, Nat.mul_assoc]
  rcases Nat.lt_trichotomy (num / den) odd with hless | hsame | hmore
  · have hgrid := Nat.mul_le_mul_right den hless
    rw [Nat.succ_mul] at hgrid
    omega
  · subst hsame
    omega
  · have hgrid := Nat.mul_le_mul_right den hmore
    rw [Nat.succ_mul] at hgrid
    omega

/-! ### The grid of the doubles -/

/-- The size of the bits that have a given significand behind a given shift. Shifted significands
have all their bits, and one bit more carries into the exponent. -/
theorem unitsOfBits_shifted {shift significand : Nat} (hle : significand ≤ 2 ^ 53)
    (hfull : shift = 0 ∨ 2 ^ 52 ≤ significand) :
    unitsOfBits (shift * 2 ^ 52 + significand) = significand * 2 ^ shift := by
  by_cases hcarry : significand = 2 ^ 53
  · have hscale : scaleOfBits (shift * 2 ^ 52 + significand) = shift + 1 := by
      rw [scaleOfBits]
      omega
    have hleft : shift * 2 ^ 52 + significand - (shift + 1) * 2 ^ 52 = 2 ^ 52 := by omega
    rw [unitsOfBits, hscale, hleft, hcarry, ← Nat.pow_add, ← Nat.pow_add]
    congr 1
    omega
  · have hscale : scaleOfBits (shift * 2 ^ 52 + significand) = shift := by
      rw [scaleOfBits]
      omega
    rw [unitsOfBits, hscale, Nat.add_sub_cancel_left]

theorem unitsOfBits_mono : Monotone unitsOfBits := by
  refine monotone_nat_of_le_succ fun bits ↦ ?_
  obtain ⟨significand, hbits, hle, hfull⟩ : ∃ significand,
      bits = scaleOfBits bits * 2 ^ 52 + significand ∧ significand + 1 ≤ 2 ^ 53 ∧
        (scaleOfBits bits = 0 ∨ 2 ^ 52 ≤ significand) :=
    ⟨bits - scaleOfBits bits * 2 ^ 52, by rw [scaleOfBits]; omega⟩
  generalize scaleOfBits bits = shift at hbits hfull
  subst hbits
  rw [Nat.add_assoc, unitsOfBits_shifted (by omega) hfull, unitsOfBits_shifted hle (by omega)]
  exact Nat.mul_le_mul_right _ (Nat.le_succ significand)

/-- No finite double lies strictly between neighbours on the grid. -/
theorem signed_apart {x : Float} {negative : Bool} {units shift significand : Nat}
    (hx : shape x = .finite negative units) (hlt : significand < 2 ^ 53)
    (hfull : shift = 0 ∨ 2 ^ 52 ≤ significand) :
    signed negative units ≤ (significand * 2 ^ shift : Nat) ∨
      ((significand + 1) * 2 ^ shift : Nat) ≤ signed negative units := by
  obtain ⟨bits, -, -, rfl⟩ := exists_withSign hx
  cases negative with
  | true =>
    left
    rw [signed, if_pos rfl]
    omega
  | false =>
    rw [signed, if_neg Bool.false_ne_true, Int.ofNat_le, Int.ofNat_le,
      ← unitsOfBits_shifted hlt.le hfull, ← unitsOfBits_shifted hlt (by omega)]
    exact (Nat.lt_or_ge (shift * 2 ^ 52 + significand) bits).elim
      (fun hmore ↦ .inr (unitsOfBits_mono hmore)) (fun hless ↦ .inl (unitsOfBits_mono hless))

/-! ### Quotients on the grid -/

/-- The bits of a whole number before its excess ones make up a significand, which has all its
bits if there is an excess. -/
theorem div_excess (whole : Nat) :
    whole / 2 ^ excessBits whole < 2 ^ 53 ∧
      (excessBits whole = 0 ∨ 2 ^ 52 ≤ whole / 2 ^ excessBits whole) := by
  by_cases hzero : whole = 0
  · subst hzero
    decide
  · have hlog := (Nat.log2_eq_iff hzero).mp rfl
    have hpow := Nat.two_pow_pos (excessBits whole)
    rw [Nat.div_lt_iff_lt_mul hpow, Nat.le_div_iff_mul_le hpow, ← Nat.pow_add, ← Nat.pow_add]
    constructor
    · refine hlog.2.trans_le (Nat.pow_le_pow_right (by decide) ?_)
      rw [excessBits]
      omega
    · refine or_iff_not_imp_left.mpr fun hexcess ↦ Nat.le_trans (Nat.le_of_eq ?_) hlog.1
      rw [excessBits] at hexcess ⊢
      congr 1
      omega

theorem overflowBound_mul {top : Nat} (htop : top = 2044) :
    overflowBound * unitsInOne = (2 ^ 54 - 1) * 2 ^ top := by
  subst htop
  decide +kernel

/-- The exponent that rounding on the grid ends with is too large from the overflow bound on. With
the greatest shift it takes a carry, which is where the bound comes from. -/
theorem infinityBits_le_iff {size den top : Nat} (hden : 0 < den) (htop : top = 2044) :
    infinityBits ≤ excessBits (size / den) * 2 ^ 52 +
        roundDiv size (den * 2 ^ excessBits (size / den)) ↔
      (2 ^ 54 - 1) * (den * 2 ^ top) ≤ size := by
  obtain ⟨hlt, hfull⟩ := div_excess (size / den)
  generalize excessBits (size / den) = shift at hlt hfull
  rw [Nat.div_div_eq_div_mul] at hlt hfull
  have hgrid : 0 < den * 2 ^ shift := Nat.mul_pos hden (Nat.two_pow_pos shift)
  have hround : size / (den * 2 ^ shift) ≤ roundDiv size (den * 2 ^ shift) ∧
      roundDiv size (den * 2 ^ shift) ≤ size / (den * 2 ^ shift) + 1 := by
    have hcases := roundDiv_cases size (den * 2 ^ shift)
    omega
  rw [infinityBits_eq]
  rcases Nat.lt_trichotomy shift (top + 1) with hless | rfl | hmore
  · have hbelow : size < 2 ^ 53 * (den * 2 ^ shift) := by
      rwa [Nat.div_lt_iff_lt_mul hgrid] at hlt
    have hshift : den * 2 ^ shift ≤ den * 2 ^ top :=
      Nat.mul_le_mul_left den (Nat.pow_le_pow_right (by decide) (by omega))
    generalize den * 2 ^ top = step at hshift ⊢
    omega
  · have hcarry : 2 ^ 53 - 1 < roundDiv size (den * 2 ^ (top + 1)) ↔
        (2 * (2 ^ 53 - 1) + 1) * (den * 2 ^ (top + 1)) ≤ 2 * size :=
      lt_roundDiv_iff hgrid (by decide)
    have hshift : den * 2 ^ (top + 1) = 2 * (den * 2 ^ top) := by
      rw [Nat.pow_succ, Nat.mul_comm _ 2, Nat.mul_left_comm]
    rw [hshift] at hcarry hround ⊢
    generalize den * 2 ^ top = step at hcarry hround ⊢
    omega
  · have habove : 2 ^ 52 * (den * 2 ^ shift) ≤ size := by
      rw [← Nat.le_div_iff_mul_le hgrid]
      omega
    have hshift : den * 2 ^ (top + 2) ≤ den * 2 ^ shift :=
      Nat.mul_le_mul_left den (Nat.pow_le_pow_right (by decide) hmore)
    rw [Nat.pow_add, ← Nat.mul_assoc] at hshift
    generalize den * 2 ^ top = step at hshift ⊢
    omega

/-- Exactly the quotients from the overflow bound on are rounded to infinity. -/
theorem nearestBits_eq_infinityBits {num den : Nat} (hden : 0 < den) :
    nearestBits num den = infinityBits ↔ overflowBound * den ≤ num := by
  obtain ⟨top, htop⟩ : ∃ top, top = 2044 := ⟨_, rfl⟩
  calc nearestBits num den = infinityBits
    _ ↔ (2 ^ 54 - 1) * (den * 2 ^ top) ≤ num * unitsInOne :=
        min_eq_left_iff.trans (infinityBits_le_iff hden htop)
    _ ↔ overflowBound * den * unitsInOne ≤ num * unitsInOne := by
        rw [Nat.mul_left_comm, ← overflowBound_mul htop, Nat.mul_left_comm, Nat.mul_assoc]
    _ ↔ overflowBound * den ≤ num := Nat.mul_le_mul_right_iff unitsInOne_pos

/-- A rounded quotient makes up a significand too, or carries. -/
theorem roundDiv_excess (size den : Nat) :
    roundDiv size (den * 2 ^ excessBits (size / den)) ≤ 2 ^ 53 ∧
      (excessBits (size / den) = 0 ∨
        2 ^ 52 ≤ roundDiv size (den * 2 ^ excessBits (size / den))) := by
  have hexcess := div_excess (size / den)
  rw [Nat.div_div_eq_div_mul] at hexcess
  have hcases := roundDiv_cases size (den * 2 ^ excessBits (size / den))
  omega

/-- The double nearest to a quotient is the quotient correctly rounded. -/
theorem rounds_nearest {num den : Nat} (hden : 0 < den) :
    Rounds num den (nearest false num den) where
  overflow hbound := by
    rw [nearest, (nearestBits_eq_infinityBits hden).mpr hbound, infinity]
  finite hbound := by
    have hbits : nearestBits num den < infinityBits :=
      (nearestBits_le num den).lt_of_ne fun heq ↦
        hbound.not_ge ((nearestBits_eq_infinityBits hden).mp heq)
    have hgrid : nearestBits num den = excessBits (num * unitsInOne / den) * 2 ^ 52 +
        roundDiv (num * unitsInOne) (den * 2 ^ excessBits (num * unitsInOne / den)) :=
      (min_choice ..).resolve_left hbits.ne
    refine ⟨_, shape_withSign false hbits, fun y negative others hy ↦ ?_⟩
    rw [nearest, toNat_toBits_withSign false hbits.le, hgrid]
    obtain ⟨hlt, hfull⟩ := div_excess (num * unitsInOne / den)
    obtain ⟨hle, hcarry⟩ := roundDiv_excess (num * unitsInOne) den
    rw [Nat.div_div_eq_div_mul] at hlt hfull
    generalize excessBits (num * unitsInOne / den) = shift at hlt hfull hle hcarry ⊢
    rw [unitsOfBits_shifted hle hcarry]
    have hregroup (count : Nat) :
        (count * 2 ^ shift : Nat) * (den : Int) = (count * (den * 2 ^ shift) : Nat) := by
      rw [← Int.natCast_mul, Nat.mul_assoc, Nat.mul_comm (2 ^ shift)]
    have hapart := (signed_apart hy hlt hfull).imp
      (Int.mul_le_mul_of_nonneg_right · (Int.natCast_nonneg den))
      (Int.mul_le_mul_of_nonneg_right · (Int.natCast_nonneg den))
    rw [hregroup, hregroup] at hapart
    have hnearest := roundDiv_nearest (Nat.mul_pos hden (Nat.two_pow_pos shift)) hapart
    rw [← hregroup] at hnearest
    refine ⟨hnearest.1, fun htie hother ↦ ?_⟩
    have heven := hnearest.2 htie fun hsame ↦
      hother (Int.eq_of_mul_eq_mul_right (Int.natCast_ne_zero.mpr hden.ne') hsame)
    rw [if_neg Bool.false_ne_true]
    omega

theorem unitsOfBits_strictMonoOn : StrictMonoOn unitsOfBits {bits | bits < infinityBits} :=
  (unitsOfBits_mono.monotoneOn _).strictMonoOn_of_injOn fun _ hfirst _ hsecond ↦
    unitsOfBits_inj hfirst hsecond

theorem natAbs_sub_lt {size low middle high : Nat} (hlow : low < middle) (hhigh : middle < high)
    (hsame : (size - low : Int).natAbs = (size - high : Int).natAbs) :
    (size - middle : Int).natAbs < (size - low : Int).natAbs := by
  omega

/-- Of two doubles that are a quotient correctly rounded none is the greater. They would be at the
same distance and both even, but then there is a double between them, which is nearer. -/
theorem Rounds.le {num den bits more : Nat} (hden : 0 < den) (hbits : bits < infinityBits)
    (hmore : more < infinityBits) (hbound : num < overflowBound * den)
    (hfirst : Rounds num den (withSign false bits))
    (hsecond : Rounds num den (withSign false more)) : more ≤ bits := by
  obtain ⟨_, hunits, hnearest⟩ := hfirst.finite hbound
  obtain ⟨_, hothers, hnearestOther⟩ := hsecond.finite hbound
  obtain rfl := (Shape.finite.inj ((shape_withSign false hbits).symm.trans hunits)).2
  obtain rfl := (Shape.finite.inj ((shape_withSign false hmore).symm.trans hothers)).2
  rw [toNat_toBits_withSign false hbits.le, if_neg Bool.false_ne_true, Nat.zero_add] at hnearest
  rw [toNat_toBits_withSign false hmore.le, if_neg Bool.false_ne_true, Nat.zero_add]
    at hnearestOther
  by_contra! hlt
  have hunitsLt := unitsOfBits_strictMonoOn hbits hmore hlt
  have hsame := Nat.le_antisymm (hnearest _ false _ hothers).1 (hnearestOther _ false _ hunits).1
  have heven := (hnearest _ false _ hothers).2 hsame (by rw [signed, if_neg (by decide)]; omega)
  have hevenOther :=
    (hnearestOther _ false _ hunits).2 hsame.symm (by rw [signed, if_neg (by decide)]; omega)
  have hbetween : bits + 1 < infinityBits := by omega
  have hnear := (hnearest _ false _ (shape_withSign false hbetween)).1
  have habove := unitsOfBits_strictMonoOn hbits hbetween (Nat.lt_succ_self bits)
  have hbelow := unitsOfBits_strictMonoOn hbetween hmore (by omega)
  have hleft := Nat.mul_lt_mul_of_pos_right habove hden
  have hright := Nat.mul_lt_mul_of_pos_right hbelow hden
  simp only [distance, signed, Bool.false_eq_true, if_false, ← Int.natCast_mul] at hnear hsame
  exact hnear.not_gt (natAbs_sub_lt hleft hright hsame)

/-- There is one double that is a quotient correctly rounded. -/
theorem Rounds.unique {num den : Nat} {x y : Float} (hden : 0 < den) (hx : Rounds num den x)
    (hy : Rounds num den y) : x = y := by
  rcases Nat.lt_or_ge num (overflowBound * den) with hbound | hbound
  · obtain ⟨_, hunits, -⟩ := hx.finite hbound
    obtain ⟨_, hothers, -⟩ := hy.finite hbound
    obtain ⟨bits, hbits, rfl, -⟩ := exists_withSign hunits
    obtain ⟨more, hmore, rfl, -⟩ := exists_withSign hothers
    rw [(hx.le hden hbits hmore hbound hy).antisymm (hy.le hden hmore hbits hbound hx)]
  · rw [hx.overflow hbound, hy.overflow hbound]

end Reckoner.Number
