import Reckoner.Number.Integer

/-!
Positions in source text. Lines end at a carriage return and at nothing else, and columns
count characters.
-/

set_option autoImplicit false
set_option relaxedAutoImplicit false

namespace Reckoner

/-- A line and a column, both counted from one. -/
structure Pos where
  line : Int
  column : Int
  deriving DecidableEq, Repr

namespace Pos

/-- The position of the first character. -/
def start : Pos := ⟨1, 1⟩

/-- Stands where there is no source text to point at. -/
def unknown : Pos := ⟨-1, -1⟩

/-- Whether messages name the position. -/
def isKnown (pos : Pos) : Bool :=
  pos.line ≠ -1 && pos.column ≠ -1

/-- The position behind a character. -/
def advance (pos : Pos) (c : Char) : Pos :=
  if c = '\r' then ⟨pos.line + 1, 1⟩ else ⟨pos.line, pos.column + 1⟩

/-- The position behind a piece of text. -/
def after (pos : Pos) (text : List Char) : Pos :=
  text.foldl advance pos

@[simp] theorem after_nil (pos : Pos) : pos.after [] = pos := rfl

@[simp] theorem after_cons (pos : Pos) (c : Char) (text : List Char) :
    pos.after (c :: text) = (pos.advance c).after text := rfl

theorem after_append (pos : Pos) (first second : List Char) :
    pos.after (first ++ second) = (pos.after first).after second := by
  simp [after]

/-- Line and column with a colon between them. -/
def text (pos : Pos) : String :=
  Number.integerText pos.line ++ ":" ++ Number.integerText pos.column

end Pos

end Reckoner
