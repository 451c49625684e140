/-!
Binary operators.
-/

set_option autoImplicit false
set_option relaxedAutoImplicit false

namespace Reckoner

/-- A binary operator. Texts without a meaning are kept, and found out at evaluation. -/
inductive Operator where
  | add
  | sub
  | mul
  | div
  | pow
  | lt
  | gt
  | le
  | ge
  | eq
  | ne
  | unknown (text : String)
  deriving DecidableEq, Repr

namespace Operator

/-- The operator as it is written. -/
def text : Operator → String
  | add => "+"
  | sub => "-"
  | mul => "*"
  | div => "/"
  | pow => "^"
  | lt => "<"
  | gt => ">"
  | le => "<="
  | ge => ">="
  | eq => "=="
  | ne => "!="
  | unknown text => text

/-- The operator that a text writes. -/
def ofText (text : String) : Operator :=
  match text with
  | "+" => add
  | "-" => sub
  | "*" => mul
  | "/" => div
  | "^" => pow
  | "<" => lt
  | ">" => gt
  | "<=" => le
  | ">=" => ge
  | "==" => eq
  | "!=" => ne
  | _ => unknown text

theorem text_ofText (source : String) : (ofText source).text = source := by
  unfold ofText
  split <;> rfl

end Operator

end Reckoner
