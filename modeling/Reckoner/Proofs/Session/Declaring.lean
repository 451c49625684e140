import Reckoner.Proofs.Declarations
import Reckoner.Proofs.Grammar.StatementTree
import Reckoner.Session

/-!
What a statement does to a session. Reading it is all or nothing: a text that is no
statement leaves the session as it was, and a statement declares what its derivation
declares, in the order of completion. Evaluation adds nothing to that and takes nothing
back, whatever comes of it.
-/

set_option autoImplicit false
set_option relaxedAutoImplicit false

namespace Reckoner

namespace Session

/-- The text is cut into tokens that are read as the statement. -/
def Reads (limit : Nat) (session : Session) (text : String) (tokens : List Token)
    (statement : Statement) : Prop :=
  Reckoner.tokenize limit text = .ok tokens ∧
    Statement.ofTokens limit session.declarations tokens = .ok statement

/-- The session once the statement has been read. -/
def declaring (session : Session) (statement : Statement) : Session :=
  ⟨session.declarations.declareAll statement.declared⟩

/-- A text is either no statement, and nothing happens, or is read as one and declares. -/
theorem parse_cases (limit : Nat) (session : Session) (text : String) :
    (∃ failure : Failure, failure.stage ≠ .runtime ∧
      session.parse limit text = (.error failure, session)) ∨
    ∃ tokens statement, Reads limit session text tokens statement ∧
      session.parse limit text = (.ok statement.expr, session.declaring statement) := by
  unfold parse
  cases htokens : Reckoner.tokenize limit text with
  | error fault =>
    exact .inl ⟨.lex fault, nofun, rfl⟩
  | ok tokens =>
    dsimp only
    cases hstatement : Statement.ofTokens limit session.declarations tokens with
    | error fault => exact .inl ⟨.parse fault, nofun, rfl⟩
    | ok statement => exact .inr ⟨tokens, statement, ⟨htokens, hstatement⟩, rfl⟩

/-- Evaluating a statement leaves the session that reading it leaves. -/
theorem evaluate_snd (limit : Nat) (session : Session) (text : String) :
    (session.evaluate limit text).2 = (session.parse limit text).2 := by
  unfold evaluate
  rcases session.parse limit text with ⟨result, after⟩
  cases result <;> rfl

/-- Evaluation comes behind reading and leaves the session as reading has left it. -/
theorem evaluate_cases (limit : Nat) (session : Session) (text : String) :
    (∃ failure : Failure, failure.stage ≠ .runtime ∧
      session.evaluate limit text = (.error failure, session)) ∨
    ∃ tokens statement, Reads limit session text tokens statement ∧
      session.evaluate limit text =
        ((session.declaring statement).execute limit statement.expr,
          session.declaring statement) := by
  unfold evaluate
  rcases parse_cases limit session text with ⟨failure, hstage, h⟩ | ⟨tokens, statement, hreads, h⟩
  · rw [h]
    exact .inl ⟨failure, hstage, rfl⟩
  · rw [h]
    exact .inr ⟨tokens, statement, hreads, rfl⟩

/-- Evaluation proper fails at its own stage only. -/
theorem stage_of_execute {limit : Nat} {session : Session} {expr : Expr} {failure : Failure}
    (h : session.execute limit expr = .error failure) : failure.stage = .runtime := by
  unfold execute at h
  cases hresult : (Reckoner.evaluate limit session.declarations expr .empty).1 with
  | error fault =>
    rw [hresult] at h
    cases h
    rfl
  | ok value =>
    rw [hresult] at h
    cases h

/-- The text fails before it has been read as a statement. -/
def Unread (limit : Nat) (session : Session) (text : String) : Prop :=
  ∃ failure, (session.evaluate limit text).1 = .error failure ∧ failure.stage ≠ .runtime

/-- Declarations are atomic. A text that cannot be read leaves the session as it was. Any
other text has a derivation, and just what that declares is declared, in the order of
completion, one declaration for each word that starts one: whatever becomes of the
evaluation, of every name the last declaration counts and all else stays as it was. -/
theorem evaluate_atomic (limit : Nat) (session : Session) (text : String) :
    (session.Unread limit text → (session.evaluate limit text).2 = session) ∧
    (¬ session.Unread limit text → ∃ tokens, Reckoner.tokenize limit text = .ok tokens ∧
      ∃ tree : StatementTree, tree.Derives session.declarations tokens ∧
        (∀ other : StatementTree, other.Derives session.declarations tokens → other = tree) ∧
        let declared := tree.expr.declared session.declarations.builtins
        let after := (session.evaluate limit text).2.declarations
        after = session.declarations.declareAll declared ∧
          session.declarations.UpdatedBy declared after ∧
          declared.length = tree.expr.tokens.countP
            fun token ↦ token.kind = .functionWord ∨ token.kind = .constWord) := by
  rcases evaluate_cases limit session text with
    ⟨failure, hstage, h⟩ | ⟨tokens, statement, hreads, h⟩
  · refine ⟨fun _ ↦ by rw [h], fun hread ↦ (hread ⟨failure, ?_, hstage⟩).elim⟩
    rw [h]
  · constructor
    · rintro ⟨failure, hfailure, hstage⟩
      rw [h] at hfailure
      exact absurd (stage_of_execute hfailure) hstage
    · intro _
      obtain ⟨tree, hderives, hunique, rfl⟩ := Statement.derivedFrom_of_ofTokens hreads.2
      refine ⟨tokens, hreads.1, tree, hderives, hunique, ?_⟩
      rw [h]
      exact ⟨rfl, Declarations.updatedBy_declareAll _ _, tree.expr.length_declared _⟩

end Session

end Reckoner
