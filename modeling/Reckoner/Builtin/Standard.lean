import Reckoner.Builtin

/-!
The standard table of built-in functions. Where a function has no value in the numbers the
result is infinite or not a number, as the standard for floating-point arithmetic has it;
only factorials and draws from a range can fail.
-/

set_option autoImplicit false
set_option relaxedAutoImplicit false

namespace Reckoner

namespace Builtin

/-- The logarithm to a base. The bases zero and infinity have one logarithm only, that of one,
and the base one has none. -/
def logarithm (x base : Float) : Float :=
  if x.isNaN || x < 0 || base.isNaN || base < 0 || base == 1 then notANumber
  else if x != 1 && (base == 0 || base.isInf) then notANumber
  else x.log / base.log

/-- The product of the numbers from one to `n`. -/
def factorial : Nat → Nat
  | 0 => 1
  | n + 1 => factorial n * (n + 1)

/-- The greatest number whose factorial is below the range of infinity. -/
def factorialBound : Nat := 170

/-- The factorial of the integer part, rounded once. -/
def fact (x : Float) : Except BuiltinFault Float :=
  match Number.truncate? x with
  | none => .error (.noFactorial x)
  | some n =>
    if n < 0 then .error (.noFactorial x)
    else if factorialBound < n.natAbs then .ok (Number.infinity false)
    else .ok (Number.nearest false (factorial n.natAbs) 1)

/-- An integer from the first bound up to, but not including, the second; equal bounds give
that integer. Any such integer will do, and the least one is taken. -/
def random (low high : Float) : Except BuiltinFault Float :=
  match Number.truncate? low, Number.truncate? high with
  | some low, some high =>
    if high < low then .error (.emptyRange low high) else .ok (Number.ofInteger low)
  | _, _ => .error .unboundedRange

/-- The standard table. -/
def standard : NameMap Builtin :=
  .ofList [
    ("Sin", unary fun x ↦ .ok x.sin),
    ("Cos", unary fun x ↦ .ok x.cos),
    ("Tan", unary fun x ↦ .ok x.tan),
    ("Sqrt", unary fun x ↦ .ok x.sqrt),
    ("Pow", binary fun x y ↦ .ok (x.pow y)),
    ("Exp", unary fun x ↦ .ok x.exp),
    ("Abs", unary fun x ↦ .ok x.abs),
    ("Log", unaryOrBinary fun x base ↦
      .ok (match base with
        | none => x.log
        | some base => logarithm x base)),
    ("Log10", unary fun x ↦ .ok x.log10),
    ("Fact", unary fact),
    ("Random", binary random)]

end Builtin

end Reckoner
