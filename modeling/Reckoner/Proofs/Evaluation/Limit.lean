import Reckoner.Proofs.Evaluation.Safety

/-!
The limit on nested evaluations. An evaluation under a limit either runs into it or does what it
does under any higher limit: the result is the same and so is the environment that is left.
-/

set_option autoImplicit false
set_option relaxedAutoImplicit false

namespace Reckoner

namespace Evaluation

variable {α β : Type}

/-- The first evaluation runs into the limit wherever it does not do what the second one does. -/
def Under (evaluation other : Evaluation α) : Prop :=
  ∀ env, (evaluation.run.run env).1 = .error .tooDeep ∨
    evaluation.run.run env = other.run.run env

theorem Under.refl (evaluation : Evaluation α) : evaluation.Under evaluation := fun _ ↦ .inr rfl

theorem under_of_tooDeep (other : Evaluation α) : Under (throw .tooDeep) other := fun _ ↦ .inl rfl

theorem Under.bind {evaluation other : Evaluation α} {next next' : α → Evaluation β}
    (h : evaluation.Under other) (hnext : ∀ value, (next value).Under (next' value)) :
    (evaluation >>= next).Under (other >>= next') := by
  intro env
  rcases hrun : evaluation.run.run env with ⟨outcome, here⟩
  rcases h env with hdeep | hsame
  · rw [hrun] at hdeep
    subst hdeep
    rw [run_bind_of_error hrun]
    exact .inl rfl
  · cases outcome with
    | error fault =>
      rw [run_bind_of_error hrun, run_bind_of_error (hsame.symm.trans hrun)]
      exact .inr rfl
    | ok value =>
      rw [run_bind_of_ok hrun, run_bind_of_ok (hsame.symm.trans hrun)]
      exact hnext value here

/-- A step that is the same for both evaluations. -/
theorem Under.step {next next' : α → Evaluation β} (evaluation : Evaluation α)
    (hnext : ∀ value, (next value).Under (next' value)) :
    (evaluation >>= next).Under (evaluation >>= next') :=
  (Under.refl evaluation).bind hnext

/-- Putting the environment back hides no overflow. -/
theorem Under.restoring {evaluation other : Evaluation α} (h : evaluation.Under other) :
    (restoring evaluation).Under (restoring other) := by
  intro env
  rcases h env with hdeep | hsame
  · exact .inl hdeep
  · refine .inr ?_
    change ((evaluation.run.run env).1, env) = ((other.run.run env).1, env)
    rw [hsame]

variable {evaluate evaluate' : Expr → Evaluation Value} {declarations : Declarations}

theorem under_bindAll (h : ∀ expr, (evaluate expr).Under (evaluate' expr))
    (bindings : List (String × Expr)) :
    (bindAll evaluate bindings).Under (bindAll evaluate' bindings) := by
  induction bindings with
  | nil => exact .refl _
  | cons binding bindings ih =>
    exact (h binding.2).bind fun _ ↦ .step _ fun _ ↦ ih

theorem under_numbers (h : ∀ expr, (evaluate expr).Under (evaluate' expr)) (function : String)
    (pos : Pos) (args : List Expr) :
    (numbers evaluate function pos args).Under (numbers evaluate' function pos args) := by
  induction args with
  | nil => exact .refl _
  | cons arg args ih =>
    refine (h arg).bind fun value ↦ ?_
    cases value with
    | number x => exact ih.bind fun _ ↦ .refl _
    | none => exact .refl _
    | boolean b => exact .refl _
    | text content => exact .refl _

theorem under_access (h : ∀ expr, (evaluate expr).Under (evaluate' expr)) (pos : Pos)
    (name : String) :
    (access evaluate declarations pos name).Under (access evaluate' declarations pos name) := by
  refine .step _ fun env ↦ ?_
  split
  · exact .refl _
  · split
    · exact h _
    · exact .refl _

theorem under_userCall (h : ∀ expr, (evaluate expr).Under (evaluate' expr)) (pos : Pos)
    (name : String) (args : List Expr) :
    (userCall evaluate declarations pos name args).Under
      (userCall evaluate' declarations pos name args) := by
  unfold userCall
  split
  · exact .refl _
  · split
    · exact .refl _
    · exact ((under_bindAll h _).bind fun _ ↦ h _).restoring

theorem under_builtinCall (h : ∀ expr, (evaluate expr).Under (evaluate' expr)) (pos : Pos)
    (name : String) (args : List Expr) :
    (builtinCall evaluate declarations pos name args).Under
      (builtinCall evaluate' declarations pos name args) := by
  unfold builtinCall
  split
  · exact .refl _
  · split
    · exact (under_numbers h name pos args).bind fun _ ↦ .refl _
    · exact .refl _

/-- With less nesting allowed, an expression is evaluated the same or the limit shows. -/
theorem under_expression {depth depth' : Nat} (hdepth : depth ≤ depth') (expr : Expr) :
    (expression declarations depth expr).Under (expression declarations depth' expr) := by
  induction depth generalizing depth' expr with
  | zero => exact under_of_tooDeep _
  | succ depth ih =>
    cases depth' with
    | zero => exact absurd hdepth (Nat.not_succ_le_zero depth)
    | succ depth' =>
      have hinner (expr : Expr) := ih (Nat.le_of_succ_le_succ hdepth) expr
      cases expr with
      | literal pos value => exact .refl _
      | access pos name => exact under_access hinner pos name
      | binary pos op left right =>
        exact (hinner left).bind fun _ ↦ (hinner right).bind fun _ ↦ .refl _
      | ifThenElse pos condition thenBranch elseBranch =>
        refine (hinner condition).bind fun value ↦ ?_
        cases value with
        | boolean b =>
          cases b with
          | true => exact hinner thenBranch
          | false => exact hinner elseBranch
        | none => exact .refl _
        | text content => exact .refl _
        | number x => exact .refl _
      | letIn pos name value body => exact (under_bindAll hinner _).bind fun _ ↦ hinner body
      | letGroup pos bindings body => exact (under_bindAll hinner _).bind fun _ ↦ hinner body
      | userCall pos name args => exact under_userCall hinner pos name args
      | builtinCall pos name args => exact under_builtinCall hinner pos name args
      | function pos name parameters body => exact .refl _
      | endMarker pos => exact .refl _

end Evaluation

/-- With less nesting allowed, an expression has the same result or none because of the limit. -/
theorem evaluate_under {limit limit' : Nat} (hlimit : limit ≤ limit') (declarations : Declarations)
    (expr : Expr) (env : Env) : (evaluate limit declarations expr env).1 = .error .tooDeep ∨
      evaluate limit declarations expr env = evaluate limit' declarations expr env :=
  Evaluation.under_expression hlimit expr env

end Reckoner
