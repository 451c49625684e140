import Reckoner.Proofs.Evaluation.Reach
import Reckoner.Proofs.Grammar.Places

/-!
Positions are reported and never acted on. Taking the positions out of an expression and of the
declarations changes nothing about an evaluation but the position of the error that it may come to.
With what reading does without positions this makes the meaning of a program independent of where
its tokens stand.
-/

set_option autoImplicit false
set_option relaxedAutoImplicit false

namespace Reckoner

/-- The error without its position. -/
def EvalError.unplaced (error : EvalError) : EvalError :=
  { error with pos := .unknown }

/-- The message without its position depends on no position. -/
theorem EvalError.detail_unplaced (error : EvalError) : error.unplaced.detail = error.detail :=
  rfl

theorem Declarations.SameUpToPlaces.find?_functions_unplaced {declarations declarations' :
    Declarations} (h : declarations.SameUpToPlaces declarations') (name : String) :
    declarations'.unplaced.functions.find? name =
      (declarations.functions.find? name).map FunctionDef.unplaced := by
  rw [unplaced, NameMap.find?_map, h.functions]

theorem Declarations.SameUpToPlaces.find?_constants_unplaced {declarations declarations' :
    Declarations} (h : declarations.SameUpToPlaces declarations') (name : String) :
    declarations'.unplaced.constants.find? name =
      (declarations.constants.find? name).map Expr.unplaced := by
  rw [unplaced, NameMap.find?_map, h.constants]

theorem Declarations.SameUpToPlaces.find?_builtins_unplaced {declarations declarations' :
    Declarations} (h : declarations.SameUpToPlaces declarations') (name : String) :
    declarations'.unplaced.builtins.find? name = declarations.builtins.find? name :=
  (h.builtins name).symm

namespace Evaluation

variable {α β : Type}

/-- The second evaluation comes to what the first one comes to, without the position of the
error. -/
def Erases (evaluation bare : Evaluation α) : Prop :=
  ∀ env : Env, bare.run.run env =
    ((evaluation.run.run env).1.mapError (Fault.map .unplaced), (evaluation.run.run env).2)

theorem erases_pure (value : α) : Erases (pure value : Evaluation α) (pure value) :=
  fun _ ↦ rfl

theorem erases_fail (cause : EvalError.Cause) (pos : Pos) :
    Erases (fail cause pos : Evaluation α) (fail cause .unknown) :=
  fun _ ↦ rfl

theorem erases_get : Erases (get : Evaluation Env) get :=
  fun _ ↦ rfl

theorem erases_bindVariable (name : String) (value : Value) :
    Erases (bindVariable name value) (bindVariable name value) :=
  fun _ ↦ rfl

theorem Erases.bind {evaluation bare : Evaluation α} {next bareNext : α → Evaluation β}
    (h : evaluation.Erases bare) (hnext : ∀ value, (next value).Erases (bareNext value)) :
    (evaluation >>= next).Erases (bare >>= bareNext) := by
  intro env
  have henv := h env
  rcases hrun : evaluation.run.run env with ⟨outcome, here⟩
  rw [hrun] at henv
  cases outcome with
  | error fault =>
    rw [run_bind_of_error hrun, run_bind_of_error henv]
    rfl
  | ok value =>
    rw [run_bind_of_ok hrun, run_bind_of_ok henv]
    exact hnext value here

theorem Erases.restoring {evaluation bare : Evaluation α} (h : evaluation.Erases bare) :
    (restoring evaluation).Erases (restoring bare) :=
  fun env ↦ congrArg (fun outcome : Except (Fault EvalError) α × Env ↦ (outcome.1, env)) (h env)

section Expressions

variable {evaluate bare : Expr → Evaluation Value} {declarations declarations' : Declarations}

theorem erases_bindAll {bindings : List (String × Expr)}
    (h : ∀ binding ∈ bindings, (evaluate binding.2).Erases (bare binding.2.unplaced)) :
    (bindAll evaluate bindings).Erases
      (bindAll bare (bindings.map (Prod.map id Expr.unplaced))) := by
  induction bindings with
  | nil => exact erases_pure ()
  | cons binding bindings ih =>
    obtain ⟨hfirst, hmore⟩ := List.forall_mem_cons.mp h
    exact hfirst.bind fun value ↦ (erases_bindVariable binding.1 value).bind fun _ ↦ ih hmore

theorem erases_numbers (function : String) (pos : Pos) {args : List Expr}
    (h : ∀ arg ∈ args, (evaluate arg).Erases (bare arg.unplaced)) :
    (numbers evaluate function pos args).Erases
      (numbers bare function .unknown (args.map Expr.unplaced)) := by
  induction args with
  | nil => exact erases_pure []
  | cons arg args ih =>
    obtain ⟨hfirst, hmore⟩ := List.forall_mem_cons.mp h
    refine hfirst.bind fun value ↦ ?_
    cases value with
    | number x => exact (ih hmore).bind fun others ↦ erases_pure (x :: others)
    | none => exact erases_fail _ pos
    | boolean b => exact erases_fail _ pos
    | text content => exact erases_fail _ pos

theorem erases_access (hsame : declarations.SameUpToPlaces declarations')
    (h : ∀ expr, (evaluate expr).Erases (bare expr.unplaced)) (pos : Pos) (name : String) :
    (access evaluate declarations pos name).Erases
      (access bare declarations'.unplaced .unknown name) := by
  refine erases_get.bind fun env ↦ ?_
  cases env.find? name with
  | some value => exact erases_pure value
  | none =>
    rw [hsame.find?_constants_unplaced]
    cases declarations.constants.find? name with
    | some value => exact h value
    | none => exact erases_fail _ pos

theorem erases_userCall (hsame : declarations.SameUpToPlaces declarations')
    (h : ∀ expr, (evaluate expr).Erases (bare expr.unplaced)) (pos : Pos) (name : String)
    (args : List Expr) : (userCall evaluate declarations pos name args).Erases
      (userCall bare declarations'.unplaced .unknown name (args.map Expr.unplaced)) := by
  rw [userCall, userCall, hsame.find?_functions_unplaced]
  cases declarations.functions.find? name with
  | none => exact erases_fail _ pos
  | some function =>
    dsimp only [Option.map_some, FunctionDef.unplaced]
    rw [List.length_map]
    split
    · exact erases_fail _ pos
    · rw [List.zip_map_right]
      exact ((erases_bindAll fun binding _ ↦ h binding.2).bind fun _ ↦ h function.body).restoring

theorem erases_builtinCall (hsame : declarations.SameUpToPlaces declarations')
    (h : ∀ expr, (evaluate expr).Erases (bare expr.unplaced)) (pos : Pos) (name : String)
    (args : List Expr) : (builtinCall evaluate declarations pos name args).Erases
      (builtinCall bare declarations'.unplaced .unknown name (args.map Expr.unplaced)) := by
  rw [builtinCall, builtinCall, hsame.find?_builtins_unplaced]
  cases declarations.builtins.find? name with
  | none => exact erases_fail _ pos
  | some builtin =>
    dsimp only
    rw [List.length_map]
    split
    · refine (erases_numbers name pos fun arg _ ↦ h arg).bind fun xs ↦ ?_
      split
      · exact erases_pure _
      · exact erases_fail _ pos
    · exact erases_fail _ pos

/-- Expressions are evaluated without a look at positions. -/
theorem erases_expression (hsame : declarations.SameUpToPlaces declarations') (depth : Nat)
    (expr : Expr) : (expression declarations depth expr).Erases
      (expression declarations'.unplaced depth expr.unplaced) := by
  induction depth generalizing expr with
  | zero => exact fun _ ↦ rfl
  | succ depth ih =>
    have hblock (bindings : List (String × Expr)) (body : Expr) :
        Erases (bindAll (expression declarations depth) bindings >>= fun _ ↦
            expression declarations depth body)
          (bindAll (expression declarations'.unplaced depth)
              (bindings.map (Prod.map id Expr.unplaced)) >>= fun _ ↦
            expression declarations'.unplaced depth body.unplaced) :=
      (erases_bindAll fun binding _ ↦ ih binding.2).bind fun _ ↦ ih body
    cases expr with
    | literal pos value => exact erases_pure value
    | access pos name => exact erases_access hsame ih pos name
    | binary pos op left right =>
      refine (ih left).bind fun leftValue ↦ (ih right).bind fun rightValue ↦ ?_
      split
      · exact erases_pure _
      · exact erases_fail _ pos
    | ifThenElse pos condition thenBranch elseBranch =>
      refine (ih condition).bind fun value ↦ ?_
      cases value with
      | boolean b =>
        cases b with
        | true => exact ih thenBranch
        | false => exact ih elseBranch
      | none => exact erases_fail _ pos
      | text content => exact erases_fail _ pos
      | number x => exact erases_fail _ pos
    | letIn pos name value body => exact hblock [(name, value)] body
    | letGroup pos bindings body =>
      rw [Expr.unplaced, unplacedBindings_eq_map]
      exact hblock bindings body
    | userCall pos name args =>
      rw [Expr.unplaced, unplacedArgs_eq_map]
      exact erases_userCall hsame ih pos name args
    | builtinCall pos name args =>
      rw [Expr.unplaced, unplacedArgs_eq_map]
      exact erases_builtinCall hsame ih pos name args
    | function pos name parameters body => exact erases_pure _
    | endMarker pos => exact erases_pure _

end Expressions

end Evaluation

/-- Taking away the positions of the expression and of the declarations takes away that of the
error, and changes nothing else. -/
theorem evaluate_unplaced {declarations declarations' : Declarations}
    (h : declarations.SameUpToPlaces declarations') (limit : Nat) (expr : Expr) (env : Env) :
    evaluate limit declarations'.unplaced expr.unplaced env =
      ((evaluate limit declarations expr env).1.mapError (Fault.map .unplaced),
        (evaluate limit declarations expr env).2) :=
  Evaluation.erases_expression h limit expr env

/-- Two evaluations that differ in positions only, and in environments where every variable has the
same value, come to the same value, or to errors with the same cause, or to the limit on nesting
both; and every variable has the same value afterwards. -/
theorem endAlike_evaluate {declarations declarations' : Declarations}
    (h : declarations.SameUpToPlaces declarations') (limit : Nat) {expr expr' : Expr}
    (hexpr : expr.unplaced = expr'.unplaced) {env env' : Env}
    (henv : ∀ name, env.find? name = env'.find? name) :
    EndAlike (fun value value' ↦ value = value')
        (fun error error' ↦ error.unplaced = error'.unplaced)
        (evaluate limit declarations expr env).1 (evaluate limit declarations' expr' env').1 ∧
      ∀ name, (evaluate limit declarations expr env).2.find? name =
        (evaluate limit declarations' expr' env').2.find? name := by
  have hbare := evaluate_unplaced h limit expr env
  have hbare' := evaluate_unplaced (.refl declarations') limit expr' env'
  rw [hexpr] at hbare
  -- Without positions only the order of the entries in the two environments can differ.
  have hclosed : declarations'.unplaced.Encloses fun _ ↦ True :=
    ⟨fun _ _ _ _ _ _ ↦ trivial, fun _ _ _ _ _ _ ↦ trivial⟩
  have hsame : (evaluate limit declarations'.unplaced expr'.unplaced env).1 =
      (evaluate limit declarations'.unplaced expr'.unplaced env').1 ∧
      Env.AgreeOn (fun _ ↦ True) (evaluate limit declarations'.unplaced expr'.unplaced env).2
        (evaluate limit declarations'.unplaced expr'.unplaced env').2 :=
    Evaluation.alike_expression (fun _ _ ↦ trivial) (fun _ _ ↦ ⟨rfl, rfl, rfl⟩) hclosed limit
      (fun _ _ ↦ trivial) env env' fun name _ ↦ henv name
  rw [hbare, hbare'] at hsame
  exact ⟨endAlike_of_mapError_eq hsame.1, fun name ↦ hsame.2 name trivial⟩

/-- Positions are only ever reported, never acted on. Tokens that differ in positions only, read
under declarations that do, form statements and leave declarations that do, or show the same error
at a token of the same kind. Expressions that differ in positions only have the same value, or
errors with the same cause and message, and every variable has the same value afterwards. -/
theorem positions_only_reported (limit : Nat) {declarations declarations' : Declarations}
    (hsame : declarations.SameUpToPlaces declarations') :
    (∀ tokens tokens' : List Token, tokens.map Token.unplaced = tokens'.map Token.unplaced →
      EndAlike
        (fun statement statement' ↦ statement.expr.unplaced = statement'.expr.unplaced ∧
          (declarations.declareAll statement.declared).SameUpToPlaces
            (declarations'.declareAll statement'.declared))
        (fun error error' ↦ error.detail = error'.detail ∧ error.token.kind = error'.token.kind)
        (Statement.ofTokens limit declarations tokens)
        (Statement.ofTokens limit declarations' tokens')) ∧
      ∀ expr expr' : Expr, expr.unplaced = expr'.unplaced → ∀ env env' : Env,
        (∀ name, env.find? name = env'.find? name) →
          EndAlike (fun value value' ↦ value = value')
            (fun error error' ↦ error.cause = error'.cause ∧ error.detail = error'.detail)
            (evaluate limit declarations expr env).1 (evaluate limit declarations' expr' env').1 ∧
          ∀ name, (evaluate limit declarations expr env).2.find? name =
            (evaluate limit declarations' expr' env').2.find? name := by
  refine ⟨fun tokens tokens' htokens ↦ ?_, fun expr expr' hexpr env env' henv ↦ ?_⟩
  · refine (Statement.endAlike_ofTokens hsame limit htokens).imp ?_ ?_
    · intro statement statement' h
      exact ⟨congrArg Statement.expr h, hsame.declareAll (congrArg Statement.declared h)⟩
    · intro error error' h
      have hkind : error.unplaced.token.kind = error'.unplaced.token.kind := by rw [h]
      exact ⟨by rw [← error.detail_unplaced, h, error'.detail_unplaced], hkind⟩
  · obtain ⟨houtcome, hafter⟩ := endAlike_evaluate hsame limit hexpr henv
    refine ⟨houtcome.imp (fun _ _ h ↦ h) fun error error' h ↦ ?_, hafter⟩
    have hcause : error.unplaced.cause = error'.unplaced.cause := by rw [h]
    exact ⟨hcause, by rw [← error.detail_unplaced, h, error'.detail_unplaced]⟩

/-- A call of a function and a body that fails, read from two places. -/
theorem positions_only_reported_call :
    let function (pos : Pos) : FunctionDef :=
      ⟨pos, "f", ["a"], .binary pos .add (.access pos "a") (.literal pos (.text "x"))⟩
    let declarations (pos : Pos) : Declarations :=
      Declarations.declare ⟨.empty, .empty, .empty⟩ (.function (function pos))
    let tokens (pos : Pos) : List Token := [⟨.identifier, "f", pos⟩, ⟨.leftParen, "(", pos⟩,
      ⟨.number, "1", pos⟩, ⟨.rightParen, ")", pos⟩, ⟨.eof, "", pos⟩]
    let expr (pos : Pos) : Expr := .userCall pos "f" [.literal pos (.number 1.0)]
    (declarations ⟨1, 1⟩).SameUpToPlaces (declarations ⟨7, 3⟩) ∧
      EndAlike (fun statement statement' ↦ statement.expr.unplaced = statement'.expr.unplaced ∧
          ((declarations ⟨1, 1⟩).declareAll statement.declared).SameUpToPlaces
            ((declarations ⟨7, 3⟩).declareAll statement'.declared))
        (fun error error' ↦ error.detail = error'.detail ∧ error.token.kind = error'.token.kind)
        (Statement.ofTokens 9 (declarations ⟨1, 1⟩) (tokens ⟨2, 1⟩))
        (Statement.ofTokens 9 (declarations ⟨7, 3⟩) (tokens ⟨8, 5⟩)) ∧
      EndAlike (fun value value' ↦ value = value')
        (fun error error' ↦ error.cause = error'.cause ∧ error.detail = error'.detail)
        (evaluate 9 (declarations ⟨1, 1⟩) (expr ⟨2, 1⟩) .empty).1
        (evaluate 9 (declarations ⟨7, 3⟩) (expr ⟨8, 5⟩) .empty).1 := by
  intro function declarations tokens expr
  have hsame : (declarations ⟨1, 1⟩).SameUpToPlaces (declarations ⟨7, 3⟩) :=
    (Declarations.SameUpToPlaces.refl _).declare rfl
  obtain ⟨hreading, hevaluation⟩ := positions_only_reported 9 hsame
  exact ⟨hsame, hreading (tokens ⟨2, 1⟩) (tokens ⟨8, 5⟩) rfl,
    (hevaluation (expr ⟨2, 1⟩) (expr ⟨8, 5⟩) rfl .empty .empty fun _ ↦ rfl).1⟩

end Reckoner
