/-!
How a stage of the evaluation can end without a result. Reading nested prints, reading
expressions and evaluating them all stop at a limit on nesting; everything else that
goes wrong is an error of the stage itself.
-/

set_option autoImplicit false
set_option relaxedAutoImplicit false

namespace Reckoner

/-- An error of a stage, or nesting beyond the limit. -/
inductive Fault (ε : Type) where
  | error (error : ε)
  | tooDeep
  deriving DecidableEq, Repr

/-- The message for nesting beyond the limit. -/
def tooDeepMessage : String := "maximum nesting depth exceeded"

/-! ### Stages that pass on a state -/

section Run

variable {σ ε α β : Type} {stage : StateT σ (Except ε) α} {state middle : σ}

theorem run_bind_of_ok {first : α} (h : stage.run state = .ok (first, middle))
    (next : α → StateT σ (Except ε) β) : (stage >>= next).run state = (next first).run middle := by
  rw [StateT.run_bind, h]
  rfl

theorem run_bind_of_error {error : ε} (h : stage.run state = .error error)
    (next : α → StateT σ (Except ε) β) : (stage >>= next).run state = .error error := by
  rw [StateT.run_bind, h]
  rfl

theorem run_pure (value : α) (state : σ) :
    (pure value : StateT σ (Except ε) α).run state = .ok (value, state) :=
  rfl

theorem run_get (state : σ) : (get : StateT σ (Except ε) σ).run state = .ok (state, state) :=
  rfl

end Run

end Reckoner
