import Reckoner.Text.Ranges

/-!
Blanks: the characters that separate words, and the test for text made of them alone.
-/

set_option autoImplicit false
set_option relaxedAutoImplicit false

namespace Reckoner.Text

/-- Tabulator to carriage return, the four information separators, the spaces of all
widths, and the line and paragraph separators. -/
def blankRanges : Ranges := [
  (0x0009, 0x000D), (0x001C, 0x0020), (0x0085, 0x0085), (0x00A0, 0x00A0), (0x1680, 0x1680),
  (0x2000, 0x200A), (0x2028, 0x2029), (0x202F, 0x202F), (0x205F, 0x205F), (0x3000, 0x3000)]

/-- Whether the character separates words and means nothing else. -/
def isBlank (c : Char) : Bool :=
  blankRanges.hold c

/-- Every blank of the ASCII class is one here. -/
theorem isBlank_of_isWhitespace (c : Char) (h : c.isWhitespace = true) : isBlank c = true := by
  simp only [Char.isWhitespace, Bool.or_eq_true, decide_eq_true_eq] at h
  rcases h with ((h | h) | h) | h <;> subst h <;> decide

/-- Whether the text holds nothing but blanks. -/
def isBlankText (text : List Char) : Bool :=
  text.all isBlank

end Reckoner.Text
