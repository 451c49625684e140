import Reckoner.Proofs.Evaluation.Safety
import Reckoner.Proofs.Grammar.Errors
import Reckoner.Proofs.Session.Registry

/-!
How statements fail. In a session that is reached from a new one a statement has a value or
fails for a reason that lies in its own text or in the values it is evaluated with. What the
stages check of each other is always in order.
-/

set_option autoImplicit false
set_option relaxedAutoImplicit false

namespace Reckoner

/-- Whether the failure is no fault of an earlier stage: a number token that is none, or an
expression that cannot have been read. -/
def Failure.IsForeseen : Failure → Prop
  | lex _ => True
  | parse .tooDeep => True
  | parse (.error error) => error.cause ≠ .invalidNumber
  | runtime .tooDeep => True
  | runtime (.error error) => error.cause.IsForeseen

namespace Session

variable {limit : Nat} {session : Session} {text : String}

/-- The numbers among the tokens of a text are never at fault. -/
theorem parse_foreseen {failure : Failure} {after : Session}
    (h : session.parse limit text = (.error failure, after)) : failure.IsForeseen := by
  unfold parse at h
  cases htokens : Reckoner.tokenize limit text with
  | error fault =>
    rw [htokens] at h
    cases h
    trivial
  | ok tokens =>
    rw [htokens] at h
    dsimp only at h
    cases hstatement : Statement.ofTokens limit session.declarations tokens with
    | ok statement =>
      rw [hstatement] at h
      cases h
    | error fault =>
      rw [hstatement] at h
      cases h
      cases fault with
      | tooDeep => trivial
      | error error =>
        intro hcause
        have hpoints := Statement.pointsInto_of_ofTokens hstatement
        obtain ⟨hkind, hnone⟩ := hpoints.number hcause
        rcases hpoints.token with hmem | hend
        · have hnumber := (wellWritten_tokenize htokens _ hmem).number hkind
          rw [hnone] at hnumber
          cases hnumber
        · rw [hend] at hkind
          cases hkind

/-- Evaluation of what sound declarations may keep fails in foreseen ways only. -/
theorem execute_foreseen (hsound : session.declarations.Sound) {expr : Expr}
    (hexpr : session.declarations.Keeps expr) {failure : Failure}
    (h : session.execute limit expr = .error failure) : failure.IsForeseen := by
  have hempty : Env.Plain .empty := nofun
  obtain ⟨outcome, after, hrun, -, -, herror⟩ :=
    Evaluation.ensures_expression hsound limit hexpr.nodes .empty hempty
  have houtcome : session.execute limit expr = outcome.mapError .runtime := by
    unfold execute Reckoner.evaluate
    rw [hrun]
  rw [houtcome] at h
  cases outcome with
  | ok value => cases h
  | error fault =>
    cases h
    cases fault with
    | tooDeep => trivial
    | error error => exact herror error rfl

/-- In every session that is reached from a new one, a statement ends in a value or fails in a
foreseen way. -/
theorem evaluate_foreseen (builtins : NameMap Builtin) (constants : List (String × Float))
    (calls : List Call) (limit : Nat) (text : String) :
    let session := (start builtins constants).callAll calls
    (∃ value, (session.evaluate limit text).1 = .ok value) ∨
      ∃ failure, (session.evaluate limit text).1 = .error failure ∧ failure.IsForeseen := by
  intro session
  cases hresult : (session.evaluate limit text).1 with
  | ok value => exact .inl ⟨value, rfl⟩
  | error failure =>
    refine .inr ⟨failure, rfl, ?_⟩
    rcases parse_cases limit session text with ⟨found, -, h⟩ | ⟨tokens, statement, hreads, h⟩
    · rw [evaluate, h] at hresult
      cases hresult
      exact parse_foreseen h
    · rw [evaluate, h] at hresult
      have hsound := sound_declaring (sound_callAll builtins constants calls) hreads
      exact execute_foreseen hsound (keeps_declaring hreads).1 hresult

end Session

end Reckoner
