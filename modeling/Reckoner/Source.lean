import Reckoner.Text.Blank

/-!
Source text as a whole: statements end at a semicolon directly before the end of a line,
and lines end at a carriage return once the ends of lines have been made alike.
-/

set_option autoImplicit false
set_option relaxedAutoImplicit false

namespace Reckoner

namespace Source

/-- The pieces of a text between terminators. There is one more piece than terminators. -/
def pieces : List Char → List (List Char)
  | [] => [[]]
  | ';' :: '\r' :: rest => [] :: pieces rest
  | c :: rest =>
    match pieces rest with
    | [] => [[c]]
    | piece :: more => (c :: piece) :: more

/-- The statements of a text: its pieces, except those that hold nothing but blanks. -/
def statements (source : String) : List String :=
  ((pieces source.toList).filter (!Text.isBlankText ·)).map String.ofList

/-- Every end of a line, however it is written, as a carriage return. -/
def unifyLineEnds : List Char → List Char
  | [] => []
  | '\r' :: '\n' :: rest => '\r' :: unifyLineEnds rest
  | '\n' :: rest => '\r' :: unifyLineEnds rest
  | c :: rest => c :: unifyLineEnds rest

/-- The lines of a text whose ends of lines are carriage returns. What stands behind the last
of them is a line if it is not empty. -/
def unifiedLines : List Char → List (List Char)
  | [] => []
  | '\r' :: rest => [] :: unifiedLines rest
  | c :: rest =>
    match unifiedLines rest with
    | [] => [[c]]
    | line :: more => (c :: line) :: more

/-- The lines of a text, however their ends are written. -/
def lines (source : String) : List String :=
  (unifiedLines (unifyLineEnds source.toList)).map String.ofList

/-- The text with every end of a line as a carriage return. -/
def normalize (source : String) : String :=
  String.ofList (unifyLineEnds source.toList)

theorem pieces_ne_nil (source : List Char) : pieces source ≠ [] := by
  fun_induction pieces source with
  | case1 => simp
  | case2 => simp
  | case3 => simp
  | case4 => simp

end Source

end Reckoner
