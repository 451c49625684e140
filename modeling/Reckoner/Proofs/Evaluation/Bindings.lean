import Reckoner.Proofs.Evaluation.Limit

/-!
Three ways to bind the same names. A call of a declared function binds its parameters, a group of
bindings binds its names, and nested `let`s bind one name each; all of them bind one after the
other, so that each bound expression sees the names bound before it, and evaluate a body behind
the last binding. They come to the same result. The group and the nested `let`s also leave the
same environment, and the call puts back the one that it found.

The call and the group evaluate the bound expressions and the body at the same depth of nesting, so
they agree under every limit. With nested `let`s each binding lies one level deeper than the one
before it, so they agree with the group up to the limit on nesting.
-/

set_option autoImplicit false
set_option relaxedAutoImplicit false

namespace Reckoner

/-- A `let` for each binding, the first one outermost, around a body. -/
def Expr.nestedLets (bindings : List (Pos × String × Expr)) (body : Expr) : Expr :=
  bindings.foldr (fun (pos, name, value) inner ↦ .letIn pos name value inner) body

/-- Whether the evaluation of the expression has the given result and leaves the given environment
once the limit on nesting is high enough. -/
def Settles (declarations : Declarations) (expr : Expr) (env : Env)
    (result : Except (Fault EvalError) Value) (after : Env) : Prop :=
  result ≠ .error .tooDeep ∧ ∃ limit, evaluate limit declarations expr env = (result, after)

namespace Evaluation

variable {α : Type} {evaluate evaluate' : Expr → Evaluation Value} {declarations : Declarations}

/-- An evaluation that settles whatever another one settles, with the same outcome. -/
theorem Under.settled {evaluation other : Evaluation α} (h : evaluation.Under other)
    {env after : Env} {result : Except (Fault EvalError) α} (hresult : result ≠ .error .tooDeep)
    (hrun : evaluation.run.run env = (result, after)) : other.run.run env = (result, after) := by
  rcases h env with hdeep | hsame
  · rw [hrun] at hdeep
    exact absurd hdeep hresult
  · exact hsame.symm.trans hrun

theorem Under.trans {first second third : Evaluation α} (h : first.Under second)
    (hbehind : second.Under third) : first.Under third := by
  intro env
  rcases h env with hdeep | hsame
  · exact .inl hdeep
  · rw [hsame]
    exact hbehind env

/-- Making one binding and then the others. -/
theorem bindAll_cons (binding : String × Expr) (bindings : List (String × Expr))
    (body : Evaluation α) :
    (bindAll evaluate (binding :: bindings) >>= fun _ ↦ body) =
      (bindAll evaluate [binding] >>= fun _ ↦ bindAll evaluate bindings >>= fun _ ↦ body) := by
  simp only [bindAll, bind_assoc, pure_bind]

/-- A group reaches its body at once where the nested `let`s come to it level by level. -/
theorem under_nestedLets (bindings : List (Pos × String × Expr)) (body : Expr) (depth : Nat) :
    (bindAll (expression declarations depth) (bindings.map (·.2)) >>= fun _ ↦
      expression declarations depth body).Under
        (expression declarations (depth + bindings.length) (.nestedLets bindings body)) := by
  induction bindings with
  | nil => exact .refl _
  | cons binding bindings ih =>
    rw [List.map_cons, bindAll_cons]
    refine Under.bind ?_ fun _ ↦ ih
    exact under_bindAll (under_expression (Nat.le_add_right depth bindings.length)) _

/-- Nested `let`s come to each of their bindings no less deep than a group does. -/
theorem nestedLets_under (bindings : List (Pos × String × Expr)) (body : Expr) (depth : Nat) :
    (expression declarations depth (.nestedLets bindings body)).Under
      (bindAll (expression declarations depth) (bindings.map (·.2)) >>= fun _ ↦
        expression declarations depth body) := by
  induction bindings generalizing depth with
  | nil => exact .refl _
  | cons binding bindings ih =>
    cases depth with
    | zero => exact under_of_tooDeep _
    | succ depth =>
      have hdeeper (expr : Expr) : (expression declarations depth expr).Under
          (expression declarations (depth + 1) expr) := under_expression (Nat.le_succ depth) expr
      rw [List.map_cons, bindAll_cons]
      refine (under_bindAll hdeeper _).bind fun _ ↦ (ih depth).trans ?_
      exact (under_bindAll hdeeper _).bind fun _ ↦ hdeeper body

end Evaluation

open Evaluation

/-- A group of bindings and nested `let`s settle alike. -/
theorem settles_letGroup_iff {declarations : Declarations} (pos : Pos)
    {bindings : List (Pos × String × Expr)} {body : Expr} {env after : Env}
    {result : Except (Fault EvalError) Value} :
    Settles declarations (.letGroup pos (bindings.map (·.2)) body) env result after ↔
      Settles declarations (.nestedLets bindings body) env result after := by
  constructor
  · rintro ⟨hresult, limit, hgroup⟩
    cases limit with
    | zero =>
      cases hgroup
      exact absurd rfl hresult
    | succ depth =>
      exact ⟨hresult, _, (under_nestedLets bindings body depth).settled hresult hgroup⟩
  · rintro ⟨hresult, limit, hnested⟩
    exact ⟨hresult, limit + 1, (nestedLets_under bindings body limit).settled hresult hnested⟩

/-- A call has the result of the group of bindings that binds its parameters, and puts the
environment back. -/
theorem evaluate_userCall {declarations : Declarations} {name : String} {function : FunctionDef}
    {args : List Expr} (hfunction : declarations.functions.find? name = some function)
    (harity : function.parameters.length = args.length) (limit : Nat) (callPos pos : Pos)
    (env : Env) :
    evaluate limit declarations (.userCall callPos name args) env =
      ((evaluate limit declarations
        (.letGroup pos (function.parameters.zip args) function.body) env).1, env) := by
  cases limit with
  | zero => rfl
  | succ depth =>
    rw [evaluate, expression, userCall, hfunction]
    simp only [harity, ne_eq, not_true_eq_false, if_false]
    rfl

/-- Calls, groups of bindings and nested `let`s agree. A group and nested `let`s with the same
bindings and the same body settle with the same result and the same environment, whether there is
a value or an error. A call of a declared function has the result of the two with its parameters
bound to its arguments and with its body, and leaves the environment as it was. -/
theorem settles_bindings (declarations : Declarations) (pos : Pos)
    (bindings : List (Pos × String × Expr)) (body : Expr) (env : Env) :
    (∀ result after,
      Settles declarations (.letGroup pos (bindings.map (·.2)) body) env result after ↔
        Settles declarations (.nestedLets bindings body) env result after) ∧
    ∀ callPos name function args, declarations.functions.find? name = some function →
      function.parameters.length = args.length →
      function.parameters.zip args = bindings.map (·.2) → function.body = body →
        (∀ limit, evaluate limit declarations (.userCall callPos name args) env =
          ((evaluate limit declarations (.letGroup pos (bindings.map (·.2)) body) env).1, env)) ∧
        ∀ result after, Settles declarations (.userCall callPos name args) env result after ↔
          after = env ∧
            ∃ left, Settles declarations (.nestedLets bindings body) env result left := by
  refine ⟨fun result after ↦ settles_letGroup_iff pos, ?_⟩
  rintro callPos name function args hfunction harity hbindings rfl
  have hcall (limit : Nat) := evaluate_userCall hfunction harity limit callPos pos env
  rw [hbindings] at hcall
  refine ⟨hcall, fun result after ↦ ?_⟩
  simp only [← settles_letGroup_iff pos]
  constructor
  · rintro ⟨hresult, limit, hrun⟩
    obtain ⟨hfst, hsnd⟩ := Prod.mk.inj ((hcall limit).symm.trans hrun)
    exact ⟨hsnd.symm, _, hresult, limit, Prod.ext hfst rfl⟩
  · rintro ⟨rfl, left, hresult, limit, hrun⟩
    exact ⟨hresult, limit, by rw [hcall limit, hrun]⟩

/-- A call whose second argument reads the first parameter, and the nested `let`s that come to the
same: they leave both variables bound, and the call leaves none. -/
theorem settles_bindings_call :
    let function : FunctionDef := ⟨.unknown, "f", ["a", "b"], .access .unknown "b"⟩
    let declarations : Declarations := ⟨.empty, .ofList [("f", function)], .empty⟩
    let args : List Expr := [.literal .unknown (.text "p"), .access .unknown "a"]
    let bindings : List (Pos × String × Expr) :=
      [(.start, "a", .literal .unknown (.text "p")), (.start, "b", .access .unknown "a")]
    declarations.functions.find? "f" = some function ∧
      function.parameters.length = args.length ∧
      function.parameters.zip args = bindings.map (·.2) ∧
      Settles declarations (.nestedLets bindings function.body) .empty (.ok (.text "p"))
        (.ofList [("a", .text "p"), ("b", .text "p")]) ∧
      Settles declarations (.userCall .unknown "f" args) .empty (.ok (.text "p")) .empty := by
  intro function declarations args bindings
  have hnested : Settles declarations (.nestedLets bindings function.body) .empty (.ok (.text "p"))
      (.ofList [("a", .text "p"), ("b", .text "p")]) := ⟨nofun, 9, rfl⟩
  have hcall := ((settles_bindings declarations .unknown bindings function.body .empty).2 .unknown
    "f" function args rfl rfl rfl rfl).2 (.ok (.text "p")) .empty
  exact ⟨rfl, rfl, rfl, hnested, hcall.mpr ⟨rfl, _, hnested⟩⟩

end Reckoner
