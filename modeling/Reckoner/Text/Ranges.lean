/-!
Sets of characters given as a list of ranges of code points, the form in which
the tables of character properties are written.
-/

set_option autoImplicit false
set_option relaxedAutoImplicit false

namespace Reckoner.Text

/-- Ranges of code points, each by its first and its last member. -/
abbrev Ranges := List (Nat × Nat)

/-- Whether some range holds the character. -/
def Ranges.hold (ranges : Ranges) (c : Char) : Bool :=
  ranges.any fun range ↦ range.1 ≤ c.toNat && c.toNat ≤ range.2

theorem Ranges.hold_iff (ranges : Ranges) (c : Char) :
    ranges.hold c = true ↔ ∃ range ∈ ranges, range.1 ≤ c.toNat ∧ c.toNat ≤ range.2 := by
  simp [Ranges.hold]

end Reckoner.Text
