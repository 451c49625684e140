import Reckoner.Text.Hex

/-!
Text as a literal of a printed expression: between double quotes, with every character
outside the visible ASCII range written by its UTF-16 units.
-/

set_option autoImplicit false
set_option relaxedAutoImplicit false

namespace Reckoner.Text

/-- The UTF-16 units of a code point: one below `0x10000`, two from there on. -/
def units (c : Char) : List Nat :=
  if c.toNat < 0x10000 then [c.toNat]
  else [0xD800 + (c.toNat - 0x10000) / 0x400, 0xDC00 + (c.toNat - 0x10000) % 0x400]

/-- One character of a literal. -/
def literalChar (c : Char) : List Char :=
  if c = '"' ∨ c = '\\' then ['\\', c]
  else if c = '\n' then ['\\', 'n']
  else if c = '\r' then ['\\', 'r']
  else if c = '\t' then ['\\', 't']
  else if c = '\x08' then ['\\', 'b']
  else if c = '\x0c' then ['\\', 'f']
  else if 32 ≤ c.toNat ∧ c.toNat < 127 then [c]
  else (units c).flatMap fun unit ↦ '\\' :: 'u' :: hexDigits 4 unit

/-- The text as a literal. -/
def literal (text : String) : String :=
  String.ofList ('"' :: (text.toList.flatMap literalChar ++ ['"']))

/-- Visible text without quotes and backslashes stands for itself. -/
theorem flatMap_literalChar (text : List Char)
    (h : ∀ c ∈ text, 32 ≤ c.toNat ∧ c.toNat < 127 ∧ c ≠ '"' ∧ c ≠ '\\') :
    text.flatMap literalChar = text := by
  induction text with
  | nil => rfl
  | cons c rest ih =>
    have hc := h c (by simp)
    have hn : c ≠ '\n' ∧ c ≠ '\r' ∧ c ≠ '\t' ∧ c ≠ '\x08' ∧ c ≠ '\x0c' := by
      refine ⟨?_, ?_, ?_, ?_, ?_⟩ <;> (intro e; subst e; simp at hc)
    have hrest := ih fun d hd ↦ h d (by simp [hd])
    simp [literalChar, hc, hn, hrest]

end Reckoner.Text
