import Reckoner.Proofs.Evaluation.Faults
import Reckoner.Proofs.Grammar.Positions
import Reckoner.Proofs.Session.History

/-!
The positions of runtime errors. An error of an evaluation is about a node that is visited on its
way, and only seeded constants have nodes without a position. These are numbers, about which there
is no error. So whatever error a statement comes to, its message names a line and a column, and
these are of a token of that statement, or of one that has declared what is in force by then.
-/

set_option autoImplicit false
set_option relaxedAutoImplicit false

namespace Reckoner

/-- A number or a text that stands for itself, wherever it stands. -/
def Expr.isLiteral : Expr → Bool
  | .literal _ _ => true
  | _ => false

/-- Whether all that is in force is a literal or stands at such positions. -/
def Declarations.StandsAt (declarations : Declarations) (places : Pos → Prop) : Prop :=
  ∀ reference definition, declarations.definition? reference = some definition →
    definition.isLiteral = true ∨ definition.StandsAt places

/-- The whole way: every visit is to a literal, or to an expression at such positions. -/
theorem Visit.During.standsAt {declarations : Declarations} {places : Pos → Prop}
    (hdeclarations : declarations.StandsAt places) {first visit : Visit}
    (hfirst : first.expr.StandsAt places) (h : During declarations first visit) :
    visit.expr.isLiteral = true ∨ visit.expr.StandsAt places := by
  induction h with
  | first => exact .inr hfirst
  | @inside depth expr inner env here _ hasks ih =>
    rcases hasks.child_or_definition with hchild | ⟨reference, -, hdefinition⟩
    · rcases ih with hliteral | hexpr
      · -- nothing stands inside a literal
        cases expr with
        | literal pos value => cases hchild
        | _ => cases hliteral
      · exact .inr (hexpr.child hchild)
    · exact hdeclarations reference inner hdefinition

/-- An error is about such a position, if all that can be visited stands there. -/
theorem pos_of_evaluate {declarations : Declarations} {places : Pos → Prop}
    (hdeclarations : declarations.StandsAt places) {expr : Expr} (hexpr : expr.StandsAt places)
    {limit : Nat} {env : Env} {error : EvalError}
    (h : (evaluate limit declarations expr env).1 = .error (.error error)) :
    places error.pos := by
  have hfault : (Visit.outcome declarations ⟨limit, expr, env⟩).1 = .error (.error error) := h
  obtain ⟨⟨depth, inner, here⟩, hvisit, houtcome, hwhere⟩ := Visit.exists_of_fault hfault
  cases depth with
  | zero => cases houtcome
  | succ depth =>
    rcases hwhere with hdepth | ⟨cause, hcause⟩
    · cases hdepth
    · cases hcause
      rcases hvisit.standsAt hdeclarations hexpr with hliteral | hinner
      · cases inner with
        | literal pos value => cases houtcome
        | _ => cases hliteral
      · exact hinner inner (.self inner)

theorem EvalError.message_of_pos {error : EvalError} (hline : 1 ≤ error.pos.line)
    (hcolumn : 1 ≤ error.pos.column) : error.message = error.pos.text ++ ": " ++ error.detail := by
  have hknown : error.pos.isKnown = true := by
    rw [Pos.isKnown, Bool.and_eq_true, decide_eq_true_eq, decide_eq_true_eq]
    omega
  rw [message, if_pos hknown]

namespace Session

variable {first : Session} {texts : List (Nat × String)} {tokens : List Token}
  {declaration : Declaration} {limit : Nat} {text : String}

/-- What a text declares stands where its tokens stand. -/
theorem Declares.standsAt (h : first.Declares texts tokens declaration) :
    declaration.expr.StandsAt fun pos ↦ ∃ token ∈ tokens, token.pos = pos := by
  obtain ⟨_, _, _, _, statement, -, hreads, hdeclared⟩ := h
  exact (Statement.standsAt_of_ofTokens hreads.2).2 declaration hdeclared

theorem Declares.pos (h : first.Declares texts tokens declaration) :
    ∀ token ∈ tokens, 1 ≤ token.pos.line ∧ 1 ≤ token.pos.column := by
  obtain ⟨_, _, _, _, _, -, hreads, -⟩ := h
  exact pos_of_tokenize hreads.1

/-- At the start nothing but literals is in force. -/
theorem isLiteral_of_start {builtins : NameMap Builtin} {constants : List (String × Float)}
    {reference : Reference} {definition : Expr}
    (h : (start builtins constants).declarations.definition? reference = some definition) :
    definition.isLiteral = true := by
  cases reference with
  | function name => cases h
  | constant name =>
    obtain ⟨x, rfl⟩ := Declarations.exists_of_find?_constants_initial h
    rfl

/-- Behind texts that have been read where nothing but literals was in force, all that is in force
is a literal or stands where tokens of one of the texts stand, of one that has declared it. -/
theorem standsAt_readAll (hfirst : ∀ reference definition,
      first.declarations.definition? reference = some definition → definition.isLiteral = true)
    (texts : List (Nat × String)) :
    (first.readAll texts).declarations.StandsAt fun pos ↦ ∃ tokens declaration,
      first.Declares texts tokens declaration ∧
        (first.readAll texts).declarations.Holds declaration ∧
          ∃ token ∈ tokens, token.pos = pos := by
  have hrecorded := recorded_readAll first texts
  intro reference definition hdefinition
  cases reference with
  | function name =>
    obtain ⟨function, hfind, rfl⟩ := Option.map_eq_some_iff.mp hdefinition
    rcases hrecorded.functions name function hfind with ⟨rfl, tokens, hdeclares⟩ | hbefore
    · exact .inr (hdeclares.standsAt.imp fun _ hnode ↦ ⟨tokens, _, hdeclares, hfind, hnode⟩)
    · exact .inl (hfirst (.function name) _ (Option.map_eq_some_iff.mpr ⟨_, hbefore, rfl⟩))
  | constant name =>
    rcases hrecorded.constants name definition hdefinition with ⟨tokens, hdeclares⟩ | hbefore
    · exact .inr (hdeclares.standsAt.imp fun _ hnode ↦ ⟨tokens, _, hdeclares, hdefinition, hnode⟩)
    · exact .inl (hfirst (.constant name) _ hbefore)

theorem evaluate_of_execute {session : Session} {expr : Expr} {error : EvalError}
    (h : session.execute limit expr = .error (.runtime (.error error))) :
    (Reckoner.evaluate limit session.declarations expr .empty).1 = .error (.error error) := by
  unfold execute at h
  cases houtcome : (Reckoner.evaluate limit session.declarations expr .empty).1 with
  | ok value =>
    rw [houtcome] at h
    cases h
  | error fault =>
    rw [houtcome] at h
    cases h
    rfl

/-- A runtime error is about a token of the statement, or of a text before it that has declared
what is in force by then. -/
theorem token_of_error (hfirst : ∀ reference definition,
      first.declarations.definition? reference = some definition → definition.isLiteral = true)
    {error : EvalError}
    (h : ((first.readAll texts).evaluate limit text).1 = .error (.runtime (.error error))) :
    ∃ tokens, (∃ token ∈ tokens, token.pos = error.pos) ∧
      (Reckoner.tokenize limit text = .ok tokens ∨
        ∃ declaration, first.Declares texts tokens declaration ∧
          ((first.readAll texts).evaluate limit text).2.declarations.Holds declaration) := by
  have hafter : ((first.readAll texts).evaluate limit text).2 =
      first.readAll (texts ++ [(limit, text)]) := by
    rw [readAll_concat, evaluate_snd]
  have hstands := standsAt_readAll hfirst (texts ++ [(limit, text)])
  rw [← hafter] at hstands
  rcases evaluate_cases limit (first.readAll texts) text with
    ⟨failure, hstage, hfails⟩ | ⟨tokens, statement, hreads, hread⟩
  · rw [hfails] at h
    cases h
    exact absurd rfl hstage
  · rw [hread] at h hstands ⊢
    let declarations := ((first.readAll texts).declaring statement).declarations
    let places (pos : Pos) : Prop := ∃ found, (∃ token ∈ found, token.pos = pos) ∧
      (Reckoner.tokenize limit text = .ok found ∨
        ∃ declaration, first.Declares texts found declaration ∧ declarations.Holds declaration)
    have hexpr : statement.expr.StandsAt places :=
      (Statement.standsAt_of_ofTokens hreads.2).1.imp fun _ hnode ↦
        ⟨tokens, hnode, .inl hreads.1⟩
    have hdeclarations : declarations.StandsAt places := by
      intro reference definition hdefinition
      refine (hstands reference definition hdefinition).imp_right fun hnodes ↦ hnodes.imp ?_
      rintro node ⟨found, declaration, hdeclares, hholds, htoken⟩
      refine ⟨found, htoken, ?_⟩
      rcases hdeclares.concat_cases with hbefore | ⟨_, hfound, -⟩
      · exact .inr ⟨declaration, hbefore, hholds⟩
      · exact .inl hfound.1
    exact pos_of_evaluate hdeclarations hexpr (evaluate_of_execute h)

/-- Runtime errors always carry a real position. In a session that is reached from a new one, the
error that a statement comes to has a line and a column, so its message names them, and they are
those of a token of that statement, or of one before it that has declared what is still in force. -/
theorem position_of_error (builtins : NameMap Builtin) (constants : List (String × Float))
    (calls : List Call) (limit : Nat) (text : String) (error : EvalError) :
    let first := start builtins constants
    let session := first.callAll calls
    (session.evaluate limit text).1 = .error (.runtime (.error error)) →
      1 ≤ error.pos.line ∧ 1 ≤ error.pos.column ∧
        error.message = error.pos.text ++ ": " ++ error.detail ∧
        ∃ tokens, (∃ token ∈ tokens, token.pos = error.pos) ∧
          (Reckoner.tokenize limit text = .ok tokens ∨
            ∃ declaration, first.Declares (calls.flatMap Call.texts) tokens declaration ∧
              (session.evaluate limit text).2.declarations.Holds declaration) := by
  intro first session herror
  have hsession : session = first.readAll (calls.flatMap Call.texts) := callAll_eq_readAll _ _
  rw [hsession] at herror ⊢
  obtain ⟨tokens, ⟨token, htoken, hpos⟩, hsource⟩ :=
    token_of_error (fun _ _ ↦ isLiteral_of_start) herror
  have hknown : 1 ≤ token.pos.line ∧ 1 ≤ token.pos.column := by
    rcases hsource with htokens | ⟨declaration, hdeclares, -⟩
    · exact pos_of_tokenize htokens token htoken
    · exact hdeclares.pos token htoken
  rw [hpos] at hknown
  exact ⟨hknown.1, hknown.2, EvalError.message_of_pos hknown.1 hknown.2, tokens,
    ⟨token, htoken, hpos⟩, hsource⟩

/-- An error in the body of a function that was declared by an earlier statement. -/
theorem position_of_error_in_body :
    let calls : List Call := [.evaluate 20 "1", .evaluate 20 "function f(x) =>\r x + y"]
    let session := (start Builtin.standard []).callAll calls
    let error : EvalError := ⟨.undefinedVariable "y", ⟨2, 6⟩⟩
    (session.evaluate 20 "f(PI)").1 = .error (.runtime (.error error)) ∧
      error.message = "2:6: undefined variable: y" ∧
      ∃ tokens, (∃ token ∈ tokens, token.pos = error.pos) ∧
        (Reckoner.tokenize 20 "f(PI)" = .ok tokens ∨
          ∃ declaration,
            (start Builtin.standard []).Declares (calls.flatMap Call.texts) tokens declaration ∧
              (session.evaluate 20 "f(PI)").2.declarations.Holds declaration) := by
  intro calls session error
  have herror : (session.evaluate 20 "f(PI)").1 = .error (.runtime (.error error)) := by
    decide +kernel
  obtain ⟨-, -, -, htoken⟩ :=
    position_of_error Builtin.standard [] calls 20 "f(PI)" error herror
  exact ⟨herror, by decide +kernel, htoken⟩

end Session

end Reckoner
