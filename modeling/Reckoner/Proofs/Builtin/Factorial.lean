import Mathlib.Data.Nat.Factorial.Basic
import Reckoner.Builtin.Standard
import Reckoner.Proofs.Number.Nearest

/-!
Factorials are exact. The product is taken without rounding and rounded once, and the bound up to
which it is taken is the greatest number whose factorial is not rounded to infinity.
-/

set_option autoImplicit false
set_option relaxedAutoImplicit false

namespace Reckoner

open Number

namespace Number

/-- The integer part of a double is its value in ones, cut off toward zero. -/
theorem truncate?_finite {x : Float} {negative : Bool} {units : Nat}
    (hx : shape x = .finite negative units) :
    truncate? x = some ((signed negative units).tdiv unitsInOne) := by
  rw [truncate?, hx]
  cases negative with
  | false => exact congrArg some (Int.ofNat_tdiv units unitsInOne)
  | true =>
    rw [signed, if_pos rfl, Int.neg_tdiv, ← Int.ofNat_tdiv]
    rfl

end Number

namespace Builtin

theorem factorial_eq (n : Nat) : factorial n = n.factorial := by
  induction n with
  | zero => rfl
  | succ n ih => rw [factorial, ih, Nat.factorial_succ, Nat.mul_comm]

/-- The product of the numbers from one on, taken one after the other, is the factorial after each
of them. -/
theorem foldl_mul_range (n : Nat) :
    (List.range' 1 n).foldl (fun product factor ↦ product * factor) 1 = factorial n := by
  induction n with
  | zero => rfl
  | succ n ih =>
    rw [List.range'_1_concat, List.foldl_append, ih, Nat.add_comm 1]
    rfl

theorem factorial_factorialBound : (factorialBound).factorial < overflowBound := by
  rw [← factorial_eq]
  decide +kernel

theorem le_factorial_succ_factorialBound : overflowBound ≤ (factorialBound + 1).factorial := by
  rw [← factorial_eq]
  decide +kernel

theorem factorial_lt_overflowBound_iff {n : Nat} :
    n.factorial < overflowBound ↔ n ≤ factorialBound := by
  constructor
  · intro hlt
    by_contra! hn
    exact absurd (le_factorial_succ_factorialBound.trans (Nat.factorial_le hn)) hlt.not_ge
  · intro hn
    exact (Nat.factorial_le hn).trans_lt factorial_factorialBound

/-- Infinity is what factorials beyond the bound are rounded to. -/
theorem rounds_infinity {n : Nat} (hn : factorialBound < n) :
    overflowBound ≤ n.factorial ∧ Rounds n.factorial 1 (infinity false) := by
  have hover : overflowBound ≤ n.factorial :=
    Nat.le_of_not_lt fun hlt ↦ hn.not_ge (factorial_lt_overflowBound_iff.mp hlt)
  have hrounds : Rounds n.factorial 1 (nearest false n.factorial 1) := rounds_nearest Nat.one_pos
  exact ⟨hover, hrounds.overflow (by omega) ▸ hrounds⟩

/-- The factorial of an integer part that is not negative is taken, whether or not the product is
worked out. -/
theorem rounds_fact {x : Float} {n : Nat} (hx : truncate? x = some (n : Int)) :
    ∃ y, fact x = .ok y ∧ Rounds n.factorial 1 y := by
  rw [fact, hx]
  dsimp only
  rw [if_neg (Int.natCast_nonneg n).not_gt, Int.natAbs_natCast]
  by_cases hbound : factorialBound < n
  · rw [if_pos hbound]
    exact ⟨_, rfl, (rounds_infinity hbound).2⟩
  · rw [if_neg hbound, factorial_eq]
    exact ⟨_, rfl, rounds_nearest Nat.one_pos⟩

/-- Factorials are exact up to the bound and the bound is exact. With `k` for the integer part of a
finite double, there is no factorial if and only if `k` is negative, and else it is `k!` correctly
rounded. Up to the bound the product that is taken is the factorial and too small for infinity;
beyond the bound infinity is what factorials are rounded to. -/
theorem fact_exact {x : Float} {negative : Bool} {units : Nat}
    (hx : shape x = .finite negative units) :
    let k := (signed negative units).tdiv unitsInOne
    (fact x = .error (.noFactorial x) ↔ k < 0) ∧
      (0 ≤ k → ∃ y, fact x = .ok y ∧ Rounds k.toNat.factorial 1 y) ∧
      (∀ n ≤ factorialBound,
        (List.range' 1 n).foldl (fun product factor ↦ product * factor) 1 = n.factorial ∧
          factorial n = n.factorial ∧ factorial n < overflowBound) ∧
      ∀ n, factorialBound < n →
        overflowBound ≤ n.factorial ∧ Rounds n.factorial 1 (infinity false) := by
  intro k
  have htruncate : truncate? x = some k := truncate?_finite hx
  have htaken (hk : 0 ≤ k) : ∃ y, fact x = .ok y ∧ Rounds k.toNat.factorial 1 y :=
    rounds_fact (by rw [htruncate, Int.toNat_of_nonneg hk])
  refine ⟨⟨fun hfault ↦ ?_, fun hk ↦ ?_⟩, htaken, fun n hn ↦ ?_, fun _ ↦ rounds_infinity⟩
  · by_contra! hk
    obtain ⟨y, hy, -⟩ := htaken hk
    rw [hy] at hfault
    cases hfault
  · rw [fact, htruncate]
    exact if_pos hk
  · rw [foldl_mul_range, factorial_eq]
    exact ⟨rfl, rfl, factorial_lt_overflowBound_iff.mpr hn⟩

/-- The factorial of 4.7 is that of 4; there is none of -1. -/
theorem fact_exact_fraction :
    (∃ y, fact (nearest false 47 10) = .ok y ∧ Rounds 24 1 y) ∧
      fact (nearest true 1 1) = .error (.noFactorial (nearest true 1 1)) := by
  have hfraction : shape (nearest false 47 10) = .finite false (unitsOfBits (nearestBits 47 10)) :=
    shape_withSign false (by decide +kernel)
  have hnegative : shape (nearest true 1 1) = .finite true (unitsOfBits (nearestBits 1 1)) :=
    shape_withSign true (by decide +kernel)
  have hfour : (signed false (unitsOfBits (nearestBits 47 10))).tdiv unitsInOne = 4 := by
    decide +kernel
  have hbelow : (signed true (unitsOfBits (nearestBits 1 1))).tdiv unitsInOne < 0 := by
    decide +kernel
  have htaken := (fact_exact hfraction).2.1
  rw [hfour] at htaken
  exact ⟨htaken (by decide), (fact_exact hnegative).1.mpr hbelow⟩

end Builtin

end Reckoner
