import Reckoner.Proofs.Evaluation.Course
import Reckoner.Proofs.Session.Registry

/-!
What statements evaluate to. Comparisons have truth values, and a session reads comparisons as
conditions of an `if` and nowhere else. So no statement has a truth value, none is bound to a name
at any moment on the way of its evaluation, and only conditions evaluate to one.
-/

set_option autoImplicit false
set_option relaxedAutoImplicit false

namespace Reckoner

namespace Session

/-- What sound declarations may keep does not evaluate to a truth value. -/
theorem isBoolean_of_execute {session : Session} {limit : Nat} {expr : Expr} {value : Value}
    (hsound : session.declarations.Sound) (hexpr : session.declarations.Keeps expr)
    (h : session.execute limit expr = .ok value) : value.isBoolean = false := by
  have hempty : Env.Plain .empty := nofun
  obtain ⟨outcome, after, hrun, -, hvalue, -⟩ :=
    Evaluation.ensures_expression hsound limit hexpr.nodes .empty hempty
  have houtcome : session.execute limit expr = outcome.mapError .runtime := by
    rw [execute, Reckoner.evaluate, hrun]
  rw [houtcome] at h
  cases outcome with
  | error fault => cases h
  | ok found =>
    cases h
    exact (hvalue value rfl).trans hexpr.plain

/-- In every session that is reached from a new one no statement evaluates to a truth value. While
a statement is evaluated, which starts with no variables, no truth value is bound where any
evaluation on the way starts or ends, and any with a truth value for its result is that of a
condition. -/
theorem evaluate_plain (builtins : NameMap Builtin) (constants : List (String × Float))
    (calls : List Call) (limit : Nat) (text : String) :
    let session := (start builtins constants).callAll calls
    (∀ value, (session.evaluate limit text).1 = .ok value → value.isBoolean = false) ∧
    ∀ expr after, session.parse limit text = (.ok expr, after) →
      let first : Visit := ⟨limit, expr, .empty⟩
      (session.evaluate limit text).1 =
          (first.outcome after.declarations).1.mapError .runtime ∧
        ∀ visit, Visit.During after.declarations first visit →
          visit.env.Plain ∧ (visit.outcome after.declarations).2.Plain ∧
            ∀ value, (visit.outcome after.declarations).1 = .ok value →
              value.isBoolean = true → Visit.IsCondition after.declarations first visit := by
  intro session
  rcases parse_cases limit session text with
    ⟨failure, -, hfails⟩ | ⟨tokens, statement, hreads, hparse⟩
  · refine ⟨fun value hvalue ↦ ?_, fun expr after h ↦ ?_⟩
    · rw [evaluate, hfails] at hvalue
      cases hvalue
    · rw [hfails] at h
      cases h
  · have hsound := sound_declaring (sound_callAll builtins constants calls) hreads
    have hkeeps := (keeps_declaring hreads).1
    have hempty : Env.Plain .empty := nofun
    have hevaluate : (session.evaluate limit text).1 =
        (session.declaring statement).execute limit statement.expr := by
      rw [evaluate, hparse]
    refine ⟨fun value hvalue ↦ isBoolean_of_execute hsound hkeeps (hevaluate.symm.trans hvalue),
      fun expr after h ↦ ?_⟩
    rw [hparse] at h
    cases h
    exact ⟨hevaluate, fun visit hvisit ↦ hvisit.plain_outcome hsound hempty hkeeps⟩

/-- A condition that holds, on the way of a statement with a value. -/
theorem evaluate_plain_condition :
    let session := (start Builtin.standard []).callAll []
    let text := "if (1 < 2) then 1 else 2"
    (session.evaluate 20 text).1.isOk = true ∧
      ∃ expr after visit, session.parse 20 text = (.ok expr, after) ∧
        Visit.During after.declarations ⟨20, expr, .empty⟩ visit ∧
        (visit.outcome after.declarations).1 = .ok (.boolean true) ∧
        visit.env.Plain ∧ Visit.IsCondition after.declarations ⟨20, expr, .empty⟩ visit := by
  intro session text
  have hread : (session.parse 20 text).1.toOption.any (fun expr ↦
      match expr with
      | .ifThenElse _ condition _ _ =>
        (Visit.outcome (session.parse 20 text).2.declarations ⟨19, condition, .empty⟩).1 =
          .ok (.boolean true)
      | _ => false) = true := by
    decide +kernel
  obtain ⟨-, hcourse⟩ := evaluate_plain Builtin.standard [] [] 20 text
  refine ⟨by decide +kernel, ?_⟩
  cases hparse : session.parse 20 text with
  | mk result after =>
    rw [hparse] at hread
    cases result with
    | error failure => cases hread
    | ok expr =>
      cases expr with
      | ifThenElse pos condition thenBranch elseBranch =>
        have htrue := of_decide_eq_true hread
        have hvisit : Visit.During after.declarations
            ⟨20, .ifThenElse pos condition thenBranch elseBranch, .empty⟩
            ⟨19, condition, .empty⟩ := .inside .first .condition
        obtain ⟨henv, -, hcondition⟩ := (hcourse _ _ hparse).2 _ hvisit
        exact ⟨_, _, _, rfl, hvisit, htrue, henv, hcondition _ htrue rfl⟩
      | _ => cases hread

end Session

end Reckoner
