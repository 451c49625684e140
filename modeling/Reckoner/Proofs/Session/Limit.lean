import Mathlib.Control.Monad.Basic
import Reckoner.Proofs.Evaluation.Limit
import Reckoner.Proofs.Session.Declaring
import Reckoner.Proofs.Token.Limit

/-!
The limit on nesting in a session. It cuts statements off and does nothing else: a statement that
keeps within it has the same outcome under any higher limit, and one that does not may come further
under a higher one, never less far. Each stage is cut off as itself, whichever others are
underway.
-/

set_option autoImplicit false
set_option relaxedAutoImplicit false

namespace Reckoner

/-- Where the stage comes in a statement. -/
def Stage.rank : Stage → Nat
  | lex => 0
  | parse => 1
  | runtime => 2

/-- The failure of a stage that nests beyond the limit. -/
def Failure.tooDeep : Stage → Failure
  | .lex => lex .tooDeep
  | .parse => parse .tooDeep
  | .runtime => runtime .tooDeep

@[simp] theorem Failure.stage_tooDeep (stage : Stage) : (tooDeep stage).stage = stage := by
  cases stage <;> rfl

namespace Session

variable {limit limit' : Nat}

/-- Under a lower limit a statement is cut off as a text, or as tokens where the higher limit has
tokens too, or it is read the same. -/
theorem parse_under (hlimit : limit ≤ limit') (session : Session) (text : String) :
    session.parse limit text = (.error (.tooDeep .lex), session) ∨
      (session.parse limit text = (.error (.tooDeep .parse), session) ∧
        (Reckoner.tokenize limit' text).isOk = true) ∨
      session.parse limit text = session.parse limit' text := by
  unfold parse
  rcases tokenize_under hlimit text with hdeep | hsame
  · rw [hdeep]
    exact .inl rfl
  · rw [← hsame]
    cases Reckoner.tokenize limit text with
    | error fault => exact .inr (.inr rfl)
    | ok tokens =>
      dsimp only
      rcases Statement.ofTokens_under hlimit session.declarations tokens with hdeep | hstatement
      · rw [hdeep]
        exact .inr (.inl ⟨rfl, rfl⟩)
      · rw [hstatement]
        exact .inr (.inr rfl)

theorem execute_under (hlimit : limit ≤ limit') (session : Session) (expr : Expr) :
    session.execute limit expr = .error (.tooDeep .runtime) ∨
      session.execute limit expr = session.execute limit' expr := by
  unfold execute
  rcases evaluate_under hlimit session.declarations expr .empty with hdeep | hsame
  · rw [hdeep]
    exact .inl rfl
  · rw [hsame]
    exact .inr rfl

/-- A text that has tokens does not fail for want of them. -/
theorem stage_of_tokenize {session : Session} {text : String} {failure : Failure}
    (htokens : (Reckoner.tokenize limit text).isOk = true)
    (h : (session.evaluate limit text).1 = .error failure) : failure.stage ≠ .lex := by
  unfold evaluate parse at h
  cases hfound : Reckoner.tokenize limit text with
  | error fault =>
    rw [hfound] at htokens
    cases htokens
  | ok tokens =>
    rw [hfound] at h
    dsimp only at h
    cases hstatement : Statement.ofTokens limit session.declarations tokens with
    | error fault =>
      rw [hstatement] at h
      cases h
      exact nofun
    | ok statement =>
      rw [hstatement] at h
      rw [stage_of_execute h]
      exact nofun

/-- What a lower limit makes of a statement is what a higher one makes of it, or the lower limit
cuts it off, at a stage that is not behind the one at which the higher limit does, if it does. -/
theorem evaluate_limit_cases (hlimit : limit ≤ limit') (session : Session) (text : String) :
    session.evaluate limit' text = session.evaluate limit text ∨
      ∃ stage, (session.evaluate limit text).1 = .error (.tooDeep stage) ∧
        ∀ failure, (session.evaluate limit' text).1 = .error failure →
          stage.rank ≤ failure.stage.rank := by
  rcases parse_under hlimit session text with hlex | ⟨hparse, htokens⟩ | hsame
  · refine .inr ⟨.lex, ?_, fun _ _ ↦ Nat.zero_le _⟩
    rw [evaluate, hlex]
  · refine .inr ⟨.parse, ?_, fun failure hfailure ↦ ?_⟩
    · rw [evaluate, hparse]
    · have hstage := stage_of_tokenize htokens hfailure
      cases hrank : failure.stage with
      | lex => exact absurd hrank hstage
      | parse => exact Nat.le_refl _
      | runtime => exact Nat.le_succ _
  · unfold evaluate
    rw [← hsame]
    rcases hresult : session.parse limit text with ⟨result, after⟩
    cases result with
    | error failure => exact .inl rfl
    | ok expr =>
      dsimp only
      rcases execute_under hlimit after expr with hdeep | hvalue
      · refine .inr ⟨.runtime, hdeep, fun failure hfailure ↦ ?_⟩
        exact Nat.le_of_eq (congrArg Stage.rank (stage_of_execute hfailure)).symm
      · rw [hvalue]
        exact .inl rfl

/-- The limit on nesting only ever cuts off. A statement that is not cut off under a limit ends in
the same value or the same error under every higher one, and leaves the same session. One that is
cut off at some stage is cut off at that stage or a later one under a higher limit, if at all. -/
theorem evaluate_limit (hlimit : limit ≤ limit') (session : Session) (text : String) :
    ((∀ stage, (session.evaluate limit text).1 ≠ .error (.tooDeep stage)) →
      session.evaluate limit' text = session.evaluate limit text) ∧
    ∀ stage, (session.evaluate limit text).1 = .error (.tooDeep stage) →
      ∀ stage', (session.evaluate limit' text).1 = .error (.tooDeep stage') →
        stage.rank ≤ stage'.rank := by
  rcases evaluate_limit_cases hlimit session text with hsame | ⟨first, hfirst, hlater⟩
  · refine ⟨fun _ ↦ hsame, fun stage hstage stage' hstage' ↦ ?_⟩
    rw [hsame, hstage] at hstage'
    have hstages := congrArg Failure.stage (Except.error.inj hstage')
    rw [Failure.stage_tooDeep, Failure.stage_tooDeep] at hstages
    exact Nat.le_of_eq (congrArg Stage.rank hstages)
  · refine ⟨fun hnever ↦ absurd hfirst (hnever first), fun stage hstage stage' hstage' ↦ ?_⟩
    have hrank := hlater _ hstage'
    have hstages := congrArg Failure.stage (Except.error.inj (hfirst.symm.trans hstage))
    rw [Failure.stage_tooDeep, Failure.stage_tooDeep] at hstages
    rwa [Failure.stage_tooDeep, hstages] at hrank

/-- A sum that is cut off while it is read, then while it is evaluated, and then not at all. -/
theorem evaluate_limit_sum :
    let text := "1 + 2 + 3 + 4 + 5 + x"
    (standard.evaluate 3 text).1 = .error (.tooDeep .parse) ∧
      (standard.evaluate 5 text).1 = .error (.tooDeep .runtime) ∧
      Stage.parse.rank ≤ Stage.runtime.rank ∧
      (∀ stage, (standard.evaluate 6 text).1 ≠ .error (.tooDeep stage)) ∧
      standard.evaluate nestingLimit text = standard.evaluate 6 text := by
  intro text
  have hread : (standard.evaluate 3 text).1 = .error (.tooDeep .parse) := by decide +kernel
  have hevaluated : (standard.evaluate 5 text).1 = .error (.tooDeep .runtime) := by
    decide +kernel
  have hwithin : ∀ stage, (standard.evaluate 6 text).1 ≠ .error (.tooDeep stage) := by
    intro stage
    cases stage <;> decide +kernel
  exact ⟨hread, hevaluated,
    (evaluate_limit (by decide) standard text).2 _ hread _ hevaluated, hwithin,
    (evaluate_limit (by decide) standard text).1 hwithin⟩

end Session

end Reckoner
