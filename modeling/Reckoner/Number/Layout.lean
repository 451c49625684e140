import Reckoner.Number.Shortest

/-!
The text of a number. Numbers of ordinary size are written positionally and always show
a point; very large and very small ones have one digit before the point and an exponent.
-/

set_option autoImplicit false
set_option relaxedAutoImplicit false

namespace Reckoner.Number

/-- How numbers are laid out. -/
structure Layout where
  /-- The least position of the point at which a number is written positionally. -/
  firstPoint : Int
  /-- The greatest such position. -/
  lastPoint : Int
  /-- The least number of digits of an exponent. -/
  exponentWidth : Nat

/-- Positional from `0.0001` up to sixteen digits before the point; exponents have two digits
or more. -/
def standardLayout : Layout := ⟨-3, 16, 2⟩

namespace Layout

/-- An exponent with its sign, filled with zeros to the least width. -/
def exponent (layout : Layout) (e : Int) : List Char :=
  let size := digits e.natAbs
  'e' :: (if e < 0 then '-' else '+') ::
    (List.replicate (layout.exponentWidth - size.length) '0' ++ size)

/-- The digits with a point at the given position. -/
def positional (row : List Char) (point : Int) : List Char :=
  if point ≤ 0 then '0' :: '.' :: (List.replicate (-point).toNat '0' ++ row)
  else if row.length ≤ point.toNat then
    row ++ List.replicate (point.toNat - row.length) '0' ++ ['.', '0']
  else row.take point.toNat ++ '.' :: row.drop point.toNat

/-- The digits with a point after the first one, and the exponent that makes up for it. -/
def scientific (layout : Layout) (row : List Char) (point : Int) : List Char :=
  let mantissa := match row with
    | first :: second :: rest => first :: '.' :: second :: rest
    | short => short
  mantissa ++ layout.exponent (point - 1)

/-- A decimal whose coefficient does not end in zero. -/
def decimal (layout : Layout) (d : Decimal) : List Char :=
  let row := digits d.coefficient
  if layout.firstPoint ≤ d.point ∧ d.point ≤ layout.lastPoint then positional row d.point
  else layout.scientific row d.point

/-- A double, written so that it reads back. -/
def number (layout : Layout) (x : Float) : String :=
  match shape x with
  | .nan => "nan"
  | .infinite negative => if negative then "-inf" else "inf"
  | .finite negative units =>
    String.ofList ((if negative then ['-'] else []) ++
      (if units = 0 then ['0', '.', '0'] else layout.decimal (shortest units)))

end Layout

/-- The text of a double. -/
def text (x : Float) : String :=
  standardLayout.number x

end Reckoner.Number
