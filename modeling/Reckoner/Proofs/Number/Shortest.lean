import Mathlib.Tactic.Ring
import Reckoner.Number.Shortest
import Reckoner.Proofs.Number.Decimal

/-!
The shortest decimal of a double. It reads as that double, and unless the double is an integer
or small its point is where numbers are written positionally.
-/

set_option autoImplicit false
set_option relaxedAutoImplicit false

namespace Reckoner.Number

variable {units : Nat}

theorem fivePow_mul_twoPow (count : Nat) : fivePow count * twoPow count = tenPow count :=
  (Nat.mul_pow 5 2 count).symm

theorem fivePow_pos (count : Nat) : 0 < fivePow count := Nat.pow_pos (by decide)

theorem roundDiv_eq_or (num den : Nat) :
    roundDiv num den = num / den ∨ roundDiv num den = num / den + 1 := by
  have hparity := Nat.mod_two_eq_zero_or_one (num / den)
  unfold roundDiv
  dsimp only
  split
  · exact .inl rfl
  · split
    · exact .inr rfl
    · omega

/-- A candidate reads back, and is one of the two neighbours on its grid. -/
theorem candidate?_eq_some {count : Nat} {d : Decimal} (h : candidate? units count = some d) :
    readsBack units d = true ∧ d.exponent = decimalPoint units - count ∧
      (d.coefficient = (gridQuotient units d.exponent).1 / (gridQuotient units d.exponent).2 ∨
        d.coefficient =
          (gridQuotient units d.exponent).1 / (gridQuotient units d.exponent).2 + 1) := by
  unfold candidate? at h
  generalize decimalPoint units - count = exponent at h ⊢
  dsimp only at h
  split at h
  · next hbelow habove =>
    obtain rfl := Option.some.inj h
    dsimp only
    rcases roundDiv_eq_or (gridQuotient units exponent).1 (gridQuotient units exponent).2 with
      hnearer | hnearer
    · rw [hnearer]
      exact ⟨hbelow, rfl, .inl rfl⟩
    · rw [hnearer]
      exact ⟨habove, rfl, .inr rfl⟩
  · next hbelow habove =>
    obtain rfl := Option.some.inj h
    dsimp only
    exact ⟨hbelow, rfl, .inl rfl⟩
  · next hbelow habove =>
    obtain rfl := Option.some.inj h
    dsimp only
    exact ⟨habove, rfl, .inr rfl⟩
  · cases h

/-- The shortest decimal is that of a candidate or the exact one. -/
theorem exists_shortest_eq (units : Nat) : ∃ d : Decimal, shortest units = d.normalize ∧
    (d = .ofUnits units ∨ ∃ count, 1 ≤ count ∧ candidate? units count = some d) := by
  unfold shortest
  cases hfound : (List.range' 1 17).findSome? (candidate? units) with
  | none => exact ⟨_, rfl, .inl rfl⟩
  | some d =>
    obtain ⟨count, hcount, hcandidate⟩ := List.exists_of_findSome?_eq_some hfound
    exact ⟨d, rfl, .inr ⟨count, (List.mem_range'_1.mp hcount).1, hcandidate⟩⟩

/-! ### Reading back -/

/-- The exact decimal of a finite double is read as the double. -/
theorem toFloat_ofUnits {x : Float} {negative : Bool} (hx : shape x = .finite negative units)
    (hpos : 0 < units) : (Decimal.ofUnits units).toFloat negative = x := by
  have hlt : units < twoPow 1024 * unitsInOne := by
    obtain ⟨bits, hbits, -, hunits⟩ := exists_withSign hx
    rw [hunits]
    exact unitsOfBits_lt hbits
  have hfive := fivePow_pos 1074
  have hlow : tenPow 674 ≤ units * fivePow 1074 :=
    Nat.le_trans (by decide +kernel : tenPow 674 ≤ fivePow 1074) (Nat.le_mul_of_pos_left _ hpos)
  have hhigh : units * fivePow 1074 < tenPow 1474 :=
    calc units * fivePow 1074
        < twoPow 1024 * unitsInOne * fivePow 1074 := Nat.mul_lt_mul_of_pos_right hlt hfive
      _ ≤ tenPow 1474 := by decide +kernel
  have hne : units * fivePow 1074 ≠ 0 := (Nat.mul_pos hpos hfive).ne'
  have hten : fivePow 1074 * unitsInOne = tenPow 1074 := by
    rw [unitsInOne_eq, fivePow_mul_twoPow]
  have hexponent : (-(-1074 : Int)).toNat = 1074 := rfl
  have hshort := lt_length_digits hlow
  have hlong := (length_digits_le_iff (n := units * fivePow 1074) (by decide)).mpr hhigh
  unfold Decimal.toFloat Decimal.point Decimal.ofUnits
  dsimp only
  rw [if_neg (by omega), if_neg (by omega), if_neg (by decide)]
  refine nearest_of_shape hx (tenPow_pos _) ?_
  rw [Nat.mul_assoc, hten, hexponent]

/-- The shortest decimal of a finite double is read as the double. -/
theorem toFloat_shortest {x : Float} {negative : Bool} (hx : shape x = .finite negative units)
    (hpos : 0 < units) : (shortest units).toFloat negative = x := by
  obtain ⟨d, hshortest, rfl | ⟨count, -, hcandidate⟩⟩ := exists_shortest_eq units
  · rw [hshortest, Decimal.toFloat_normalize]
    exact toFloat_ofUnits hx hpos
  · rw [hshortest, Decimal.toFloat_normalize]
    exact Decimal.toFloat_eq_of_shape hx (eq_of_beq (candidate?_eq_some hcandidate).1)

/-! ### The point -/

theorem tenPow_add (first second : Nat) :
    tenPow (first + second) = tenPow first * tenPow second :=
  Nat.pow_add 10 first second

theorem tenPow_le {first second : Nat} (h : first ≤ second) : tenPow first ≤ tenPow second :=
  Nat.pow_le_pow_right (by decide) h

/-- A decimal from `0.0001` up to sixteen digits before the point. -/
theorem point_of_bounds {d : Decimal} {count : Nat} (hexponent : d.exponent = -(count : Int))
    (hlow : 4 ≤ count → tenPow (count - 4) ≤ d.coefficient)
    (hhigh : d.coefficient < tenPow (16 + count)) : -3 ≤ d.point ∧ d.point ≤ 16 := by
  have hlong := (length_digits_le_iff (n := d.coefficient) (by omega)).mpr hhigh
  have hshort : count - 3 ≤ (digits d.coefficient).length := by
    by_cases hcount : 4 ≤ count
    · have := lt_length_digits (hlow hcount)
      omega
    · have := length_digits_pos d.coefficient
      omega
  rw [Decimal.point, hexponent]
  omega

/-- What is at least `0.0001` of a unit keeps its first digits when it is multiplied by a power of
ten. -/
theorem mul_tenPow_ge {one : Nat} (hlow : one ≤ 10000 * units) {count : Nat}
    (hcount : 4 ≤ count) : tenPow (count - 4) * one ≤ units * tenPow count := by
  have hsplit : tenPow count = tenPow (count - 4) * 10000 := by
    have hfour : tenPow 4 = 10000 := rfl
    rw [← hfour, ← tenPow_add, Nat.sub_add_cancel hcount]
  calc tenPow (count - 4) * one
      ≤ tenPow (count - 4) * (10000 * units) := Nat.mul_le_mul_left _ hlow
    _ = units * tenPow count := by
      rw [hsplit]
      ring

theorem mul_tenPow_lt {one : Nat} (hhigh : units < twoPow 52 * one) (count : Nat) :
    units * tenPow count < twoPow 52 * tenPow count * one := by
  rw [Nat.mul_right_comm]
  exact Nat.mul_lt_mul_of_pos_right hhigh (tenPow_pos count)

theorem twoPow_mul_tenPow_lt (count : Nat) :
    twoPow 52 * tenPow count + 1 < tenPow (16 + count) := by
  have hpos := tenPow_pos count
  have htwo : twoPow 52 = 4503599627370496 := rfl
  have hten : tenPow 16 = 10000000000000000 := rfl
  rw [tenPow_add, htwo, hten]
  omega

theorem point_exact {count : Nat} (hlow : twoPow count ≤ 10000 * units)
    (hhigh : units < twoPow 52 * twoPow count) :
    -3 ≤ Decimal.point ⟨units * fivePow count, -(count : Int)⟩ ∧
      Decimal.point ⟨units * fivePow count, -(count : Int)⟩ ≤ 16 := by
  have hunits : units * fivePow count * twoPow count = units * tenPow count := by
    rw [Nat.mul_assoc, fivePow_mul_twoPow]
  refine point_of_bounds rfl (fun hcount ↦ ?_) ?_
  · refine Nat.le_of_mul_le_mul_right ?_ (twoPow_pos count)
    rw [hunits]
    exact mul_tenPow_ge hlow hcount
  · have hless : units * fivePow count < twoPow 52 * tenPow count := by
      refine Nat.lt_of_mul_lt_mul_right (a := twoPow count) ?_
      rw [hunits]
      exact mul_tenPow_lt hhigh count
    have hbound := twoPow_mul_tenPow_lt count
    dsimp only
    omega

theorem point_ofUnits (hlow : unitsInOne ≤ 10000 * units)
    (hhigh : units < twoPow 52 * unitsInOne) :
    -3 ≤ (Decimal.ofUnits units).point ∧ (Decimal.ofUnits units).point ≤ 16 := by
  rw [unitsInOne_eq] at hlow hhigh
  exact point_exact hlow hhigh

theorem decimalPoint_le (hhigh : units < twoPow 52 * unitsInOne) : decimalPoint units ≤ 16 := by
  have hwhole : units / unitsInOne < tenPow 16 :=
    Nat.lt_of_lt_of_le (Nat.div_lt_of_lt_mul (by rwa [Nat.mul_comm])) (by decide)
  have hlong := (length_digits_le_iff (n := units / unitsInOne) (by decide)).mpr hwhole
  unfold decimalPoint
  split
  · omega
  · omega

/-- A neighbour on a grid of fractions. -/
theorem point_of_fractions {d : Decimal} {count : Nat} (hexponent : d.exponent = -(count : Int))
    (hlow : unitsInOne ≤ 10000 * units) (hhigh : units < twoPow 52 * unitsInOne)
    (hcoefficient : d.coefficient = units * tenPow count / unitsInOne ∨
      d.coefficient = units * tenPow count / unitsInOne + 1) :
    -3 ≤ d.point ∧ d.point ≤ 16 := by
  have hless : units * tenPow count / unitsInOne < twoPow 52 * tenPow count :=
    Nat.div_lt_of_lt_mul (by rw [Nat.mul_comm unitsInOne]; exact mul_tenPow_lt hhigh count)
  have hbound := twoPow_mul_tenPow_lt count
  refine point_of_bounds hexponent (fun hcount ↦ ?_) (by omega)
  have hfirst : tenPow (count - 4) ≤ units * tenPow count / unitsInOne :=
    (Nat.le_div_iff_mul_le unitsInOne_pos).mpr (mul_tenPow_ge hlow hcount)
  omega

/-- A neighbour on a grid of whole numbers. -/
theorem point_of_wholes {d : Decimal} {count : Nat} (hexponent : d.exponent = count)
    (hcount : count ≤ 15) (hhigh : units < twoPow 52 * unitsInOne)
    (hcoefficient : d.coefficient = units / (unitsInOne * tenPow count) ∨
      d.coefficient = units / (unitsInOne * tenPow count) + 1) :
    -3 ≤ d.point ∧ d.point ≤ 16 := by
  have hwhole : units / unitsInOne < twoPow 52 :=
    Nat.div_lt_of_lt_mul (by rwa [Nat.mul_comm])
  have hquotient : units / (unitsInOne * tenPow count) * tenPow count < twoPow 52 := by
    rw [← Nat.div_div_eq_div_mul]
    exact Nat.lt_of_le_of_lt (Nat.div_mul_le_self _ _) hwhole
  have hscale : tenPow count ≤ tenPow 15 := tenPow_le hcount
  have hless : d.coefficient * tenPow count < tenPow (16 - count) * tenPow count := by
    have hsplit : tenPow (16 - count) * tenPow count = tenPow 16 := by
      rw [← tenPow_add]
      congr 1
      omega
    have htwo : twoPow 52 = 4503599627370496 := rfl
    have hfifteen : tenPow 15 = 1000000000000000 := rfl
    have hsixteen : tenPow 16 = 10000000000000000 := rfl
    rw [hsplit]
    rcases hcoefficient with hcoefficient | hcoefficient
    · rw [hcoefficient]
      omega
    · rw [hcoefficient, Nat.add_mul]
      omega
  have hlong := (length_digits_le_iff (by omega)).mpr (Nat.lt_of_mul_lt_mul_right hless)
  have hshort := length_digits_pos d.coefficient
  rw [Decimal.point, hexponent]
  omega

/-- The point of the shortest decimal of a size that is neither small nor an integer. -/
theorem point_shortest (hlow : unitsInOne ≤ 10000 * units)
    (hhigh : units < twoPow 52 * unitsInOne) :
    -3 ≤ (shortest units).point ∧ (shortest units).point ≤ 16 := by
  obtain ⟨d, hshortest, hd⟩ := exists_shortest_eq units
  have hpoint : -3 ≤ d.point ∧ d.point ≤ 16 := by
    rcases hd with rfl | ⟨count, hcount, hcandidate⟩
    · exact point_ofUnits hlow hhigh
    · obtain ⟨-, hexponent, hcoefficient⟩ := candidate?_eq_some hcandidate
      have htop := decimalPoint_le hhigh
      rw [gridQuotient] at hcoefficient
      by_cases hsign : 0 ≤ d.exponent
      · rw [if_pos hsign] at hcoefficient
        dsimp only at hcoefficient
        exact point_of_wholes (Int.toNat_of_nonneg hsign).symm (by omega) hhigh hcoefficient
      · rw [if_neg hsign] at hcoefficient
        dsimp only at hcoefficient
        exact point_of_fractions (by omega) hlow hhigh hcoefficient
  rw [hshortest]
  rcases d.point_normalize with h | h
  · rwa [h]
  · rw [h]
    decide

end Reckoner.Number
