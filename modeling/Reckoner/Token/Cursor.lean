import Reckoner.Position
import Reckoner.Text.Blank

/-!
Reading source text from front to back. A cursor holds the text that is still to be read
and the position of its first character; every way to move it takes a piece off the front
and moves the position behind that piece. Layout is blanks and comments; a comment runs
from `//` to the end of the line.
-/

set_option autoImplicit false
set_option relaxedAutoImplicit false

namespace Reckoner

open Text

/-- The unread text and where it starts. -/
structure Cursor where
  rest : List Char
  pos : Pos
  deriving DecidableEq, Repr

namespace Cursor

/-- The start of a text. -/
def ofText (text : String) : Cursor :=
  ⟨text.toList, .start⟩

/-- Passes over a piece of text that stands at the cursor. -/
def skip (here : Cursor) (piece : List Char) : Cursor :=
  ⟨here.rest.drop piece.length, here.pos.after piece⟩

/-- Passes over the blanks at the cursor. -/
def skipBlanks (here : Cursor) : Cursor :=
  here.skip (here.rest.takeWhile isBlank)

/-- The layout at the front of a text; the flag says whether the text starts inside a
comment. The end of a line ends a comment and is a blank itself. -/
def layout : Bool → List Char → List Char
  | _, [] => []
  | true, c :: rest => c :: layout (c ≠ '\r') rest
  | false, '/' :: '/' :: rest => '/' :: '/' :: layout true rest
  | false, c :: rest => if isBlank c then c :: layout false rest else []

/-- Passes over the blanks and comments at the cursor. -/
def skipLayout (here : Cursor) : Cursor :=
  here.skip (layout false here.rest)

theorem length_skip (here : Cursor) (piece : List Char) :
    (here.skip piece).rest.length = here.rest.length - piece.length := by
  simp [skip]

theorem length_skipBlanks (here : Cursor) : here.skipBlanks.rest.length ≤ here.rest.length := by
  simp [skipBlanks, length_skip]

theorem length_skipLayout (here : Cursor) : here.skipLayout.rest.length ≤ here.rest.length := by
  simp [skipLayout, length_skip]

end Cursor

end Reckoner
