/-!
Hexadecimal digits at a fixed width, as escapes in quoted text need them.
-/

set_option autoImplicit false
set_option relaxedAutoImplicit false

namespace Reckoner.Text

/-- The last `width` hexadecimal digits of a number, in lower case. -/
def hexDigits : Nat → Nat → List Char
  | 0, _ => []
  | width + 1, n => hexDigits width (n / 16) ++ [Nat.digitChar (n % 16)]

theorem hexDigits_length (width n : Nat) : (hexDigits width n).length = width := by
  induction width generalizing n with
  | zero => rfl
  | succ width ih => simp [hexDigits, ih]

end Reckoner.Text
