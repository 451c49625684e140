import Reckoner.Text.Blank
import Reckoner.Text.Digit

/-!
How the classes of characters lie to each other. The tables of two classes have no character in
common if each range of the one ends before any range of the other or starts behind it.
-/

set_option autoImplicit false
set_option relaxedAutoImplicit false

namespace Reckoner.Text

/-- Whether no range of the one table meets a range of the other. -/
def Ranges.Disjoint (first second : Ranges) : Prop :=
  ∀ a ∈ first, ∀ b ∈ second, a.2 < b.1 ∨ b.2 < a.1

instance (first second : Ranges) : Decidable (first.Disjoint second) :=
  inferInstanceAs (Decidable (∀ a ∈ first, ∀ b ∈ second, a.2 < b.1 ∨ b.2 < a.1))

theorem Ranges.Disjoint.hold_eq_false {first second : Ranges} (h : first.Disjoint second)
    {c : Char} (hc : first.hold c = true) : second.hold c = false := by
  rw [Bool.eq_false_iff]
  intro hsecond
  obtain ⟨a, ha, hfrom, hto⟩ := (first.hold_iff c).mp hc
  obtain ⟨b, hb, hfrom', hto'⟩ := (second.hold_iff c).mp hsecond
  have := h a ha b hb
  omega

/-- The test that a long table is checked by. -/
theorem Ranges.disjoint_of_all {first second : Ranges}
    (h : (first.all fun a ↦ second.all fun b ↦ a.2.blt b.1 || b.2.blt a.1) = true) :
    first.Disjoint second := by
  simpa [Ranges.Disjoint, Nat.blt_eq] using h

theorem disjoint_blankRanges_letterRanges : blankRanges.Disjoint letterRanges :=
  Ranges.disjoint_of_all (by decide +kernel)

/-- Letters stand behind the digits and most punctuation. -/
theorem toNat_of_isLetter {c : Char} (h : isLetter c = true) : 65 ≤ c.toNat := by
  unfold isLetter at h
  split at h
  · rcases Bool.or_eq_true_iff.mp h with hupper | hlower
    · exact UInt32.le_iff_toNat_le.mp (of_decide_eq_true hupper).1
    · exact Nat.le_trans (by decide)
        (UInt32.le_iff_toNat_le.mp (of_decide_eq_true (Bool.and_eq_true_iff.mp hlower).1))
  · omega

/-- Among the first characters the blanks stand in front of all others. -/
theorem toNat_of_isBlank {c : Char} (h : isBlank c = true) : c.toNat ≤ 32 ∨ 128 ≤ c.toNat := by
  obtain ⟨range, hrange, hfrom, hto⟩ := (blankRanges.hold_iff c).mp h
  simp only [blankRanges, List.mem_cons, List.not_mem_nil, or_false] at hrange
  rcases hrange with rfl | rfl | rfl | rfl | rfl | rfl | rfl | rfl | rfl | rfl <;> omega

theorem isBlank_of_isLetter {c : Char} (h : isLetter c = true) : isBlank c = false := by
  rw [Bool.eq_false_iff]
  intro hblank
  have hletter := toNat_of_isLetter h
  unfold isLetter at h
  split at h
  · have := toNat_of_isBlank hblank
    omega
  · rw [disjoint_blankRanges_letterRanges.hold_eq_false hblank] at h
    cases h

theorem disjoint_decimalRanges_letterRanges : decimalRanges.Disjoint letterRanges :=
  Ranges.disjoint_of_all (by decide +kernel)

theorem disjoint_decimalRanges_blankRanges : decimalRanges.Disjoint blankRanges :=
  Ranges.disjoint_of_all (by decide +kernel)

/-- A decimal digit is one of the ten plain ones, or in the table. -/
theorem toNat_of_isDecimal {c : Char} (h : isDecimal c = true) :
    (48 ≤ c.toNat ∧ c.toNat ≤ 57) ∨ (128 ≤ c.toNat ∧ decimalRanges.hold c = true) := by
  unfold isDecimal decimalValue? at h
  split at h
  · split at h
    · next hdigit =>
      have hbounds := Bool.and_eq_true_iff.mp hdigit
      exact .inl ⟨UInt32.le_iff_toNat_le.mp (of_decide_eq_true hbounds.1),
        UInt32.le_iff_toNat_le.mp (of_decide_eq_true hbounds.2)⟩
    · cases h
  · next hplain =>
    rw [Option.isSome_map, List.find?_isSome] at h
    exact .inr ⟨Nat.le_of_not_lt hplain, List.any_eq_true.mpr h⟩

theorem isLetter_of_isDecimal {c : Char} (h : isDecimal c = true) : isLetter c = false := by
  rw [Bool.eq_false_iff]
  intro hletter
  have hbound := toNat_of_isLetter hletter
  rcases toNat_of_isDecimal h with hplain | ⟨hbeyond, htable⟩
  · omega
  · rw [isLetter, if_neg (Nat.not_lt.mpr hbeyond),
      disjoint_decimalRanges_letterRanges.hold_eq_false htable] at hletter
    cases hletter

theorem isBlank_of_isDecimal {c : Char} (h : isDecimal c = true) : isBlank c = false := by
  rw [Bool.eq_false_iff]
  intro hblank
  rcases toNat_of_isDecimal h with hplain | ⟨-, htable⟩
  · have := toNat_of_isBlank hblank
    omega
  · rw [isBlank, disjoint_decimalRanges_blankRanges.hold_eq_false htable] at hblank
    cases hblank

theorem disjoint_blankRanges_numeralRanges : blankRanges.Disjoint numeralRanges :=
  Ranges.disjoint_of_all (by decide +kernel)

/-- Blanks stand in no word. -/
theorem isWordChar_of_isBlank {c : Char} (h : isBlank c = true) : isWordChar c = false := by
  have hletter : isLetter c = false := by
    rw [Bool.eq_false_iff]
    exact fun hc ↦ Bool.false_ne_true ((isBlank_of_isLetter hc).symm.trans h)
  have hdecimal : isDecimal c = false := by
    rw [Bool.eq_false_iff]
    exact fun hc ↦ Bool.false_ne_true ((isBlank_of_isDecimal hc).symm.trans h)
  have hnumeral : numeralRanges.hold c = false :=
    disjoint_blankRanges_numeralRanges.hold_eq_false h
  rw [isWordChar, hletter, hdecimal, hnumeral, Bool.and_false]
  rfl

end Reckoner.Text
