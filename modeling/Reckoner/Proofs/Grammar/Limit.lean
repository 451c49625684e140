import Reckoner.Proofs.Grammar.Congruence

/-!
The limit on nesting. A reader under a limit either runs into it or does what it does under
any higher limit: the limit never turns one result into another.
-/

set_option autoImplicit false
set_option relaxedAutoImplicit false

namespace Reckoner

namespace Reader

variable {α β : Type}

/-- The first reader runs into the limit wherever it does not do what the second one does. -/
def Under (reader other : Reader α) : Prop :=
  ∀ row, reader.run row = .error .tooDeep ∨ reader.run row = other.run row

theorem Under.refl (reader : Reader α) : reader.Under reader := fun _ ↦ .inr rfl

theorem under_of_tooDeep (other : Reader α) : Under (throw .tooDeep) other := fun _ ↦ .inl rfl

theorem Under.bind {reader other : Reader α} {next next' : α → Reader β}
    (h : reader.Under other) (hnext : ∀ value, (next value).Under (next' value)) :
    (reader >>= next).Under (other >>= next') := by
  intro row
  rcases h row with hdeep | hsame
  · exact .inl (run_bind_of_error hdeep next)
  · cases hother : other.run row with
    | error fault =>
      rw [run_bind_of_error (hsame.trans hother), run_bind_of_error hother]
      exact .inr rfl
    | ok result =>
      obtain ⟨value, middle⟩ := result
      rw [run_bind_of_ok (hsame.trans hother), run_bind_of_ok hother]
      exact hnext value middle

theorem congruence_under : Congruence fun _ ↦ Under :=
  ⟨fun _ ↦ .refl _, Under.bind⟩

/-- With less nesting allowed, an expression is read the same or not at all. -/
theorem under_expression {depth depth' : Nat} (hdepth : depth ≤ depth') (level : Level)
    (scope : Scope) : (expression depth level scope).Under (expression depth' level scope) := by
  induction depth generalizing depth' level scope with
  | zero => exact under_of_tooDeep _
  | succ depth ih =>
    cases depth' with
    | zero => exact absurd hdepth (Nat.not_succ_le_zero depth)
    | succ depth' =>
      have hless := Nat.le_of_succ_le_succ hdepth
      cases level with
      | sum => exact congruence_under.operations (ih hless .product scope)
      | product => exact congruence_under.operations (ih hless .power scope)
      | power => exact congruence_under.operations (ih hless .operand scope)
      | operand =>
        exact congruence_under.operand (fun inner ↦ ih hless .sum inner) (ih hless .operand scope)
          scope

end Reader

/-- With less nesting allowed, a statement is read the same or not at all. -/
theorem Statement.ofTokens_under {limit limit' : Nat} (hlimit : limit ≤ limit')
    (declarations : Declarations) (tokens : List Token) :
    ofTokens limit declarations tokens = .error .tooDeep ∨
      ofTokens limit declarations tokens = ofTokens limit' declarations tokens := by
  have hreader : (reader limit declarations).Under (reader limit' declarations) :=
    (Reader.under_expression hlimit .sum _).bind fun _ ↦ .refl _
  unfold ofTokens
  rcases hreader ⟨tokens, []⟩ with hdeep | hsame
  · rw [hdeep]
    exact .inl rfl
  · rw [hsame]
    exact .inr rfl

end Reckoner
