import Reckoner.Evaluation
import Reckoner.Proofs.Declarations.Invariant

/-!
Evaluation under sound declarations. It ends in a value or fails in one of a few ways that
do not depend on how the expression was put together: a name has no value, a function is
given the wrong number of arguments or something that is no number, an operator is given
operands it does not take, or a built-in function has no result. Truth values are what
comparisons evaluate to and nothing else is one, so none is ever bound to a name.
-/

set_option autoImplicit false
set_option relaxedAutoImplicit false

namespace Reckoner

/-- Whether the cause is one that a readable expression can have. -/
def EvalError.Cause.IsForeseen : EvalError.Cause → Prop
  | undefinedVariable _ => True
  | undefinedFunction _ => False
  | wrongArity _ _ _ => True
  | conditionNotBoolean _ => False
  | invalidOperands _ _ _ => True
  | invalidArgument _ _ => True
  | unknownOperator _ => False
  | builtin _ => True

/-- Whether the value is a truth value. -/
def Value.isBoolean : Value → Bool
  | boolean _ => true
  | _ => false

namespace Operator

/-- Every operator with a meaning has a result on numbers. -/
theorem onNumbers?_eq_some {op : Operator} (hop : op.calculates = true ∨ op.compares = true)
    (x y : Float) : ∃ value, op.onNumbers? x y = some value ∧ value.isBoolean = op.compares := by
  cases op with
  | unknown text => rcases hop with h | h <;> cases h
  | _ => exact ⟨_, rfl, rfl⟩

theorem isBoolean_onTexts? {op : Operator} {left right : String} {value : Value}
    (h : op.onTexts? left right = some value) : value.isBoolean = op.compares := by
  cases op <;> cases h <;> rfl

/-- Operators with a meaning fail on their operands only, and comparisons have truth values. -/
theorem apply_foreseen {op : Operator} (hop : op.calculates = true ∨ op.compares = true)
    (left right : Value) :
    (∀ value, op.apply left right = .ok value → value.isBoolean = op.compares) ∧
      ∀ cause, op.apply left right = .error cause → cause.IsForeseen := by
  have hothers (h : op.apply left right = .error (.invalidOperands op left right)) :
      (∀ value, op.apply left right = .ok value → value.isBoolean = op.compares) ∧
        ∀ cause, op.apply left right = .error cause → cause.IsForeseen := by
    rw [h]
    refine ⟨fun value hvalue ↦ (by cases hvalue), fun cause hcause ↦ ?_⟩
    cases hcause
    trivial
  cases left with
  | none => exact hothers rfl
  | boolean b => exact hothers rfl
  | number x =>
    cases right with
    | number y =>
      obtain ⟨value, hvalue, hboolean⟩ := onNumbers?_eq_some hop x y
      rw [apply, hvalue]
      refine ⟨fun found hfound ↦ ?_, fun cause hcause ↦ (by cases hcause)⟩
      cases hfound
      exact hboolean
    | none => exact hothers rfl
    | boolean b => exact hothers rfl
    | text content => exact hothers rfl
  | text first =>
    cases right with
    | text second =>
      cases hvalue : op.onTexts? first second with
      | none => exact hothers (by rw [apply, hvalue])
      | some value =>
        rw [apply, hvalue]
        refine ⟨fun found hfound ↦ ?_, fun cause hcause ↦ (by cases hcause)⟩
        cases hfound
        exact isBoolean_onTexts? hvalue
    | none => exact hothers rfl
    | boolean b => exact hothers rfl
    | number x => exact hothers rfl

end Operator

/-- Whether no variable has a truth value. -/
def Env.Plain (env : Env) : Prop :=
  ∀ name value, env.find? name = some value → value.isBoolean = false

theorem Env.plain_insert {env : Env} (h : env.Plain) (name : String) {value : Value}
    (hvalue : value.isBoolean = false) : Env.Plain (env.insert name value) := by
  intro other found hfind
  rw [NameMap.find?_insert] at hfind
  split at hfind
  · cases hfind
    exact hvalue
  · exact h other found hfind

namespace Evaluation

variable {α β : Type} {result : α → Prop} {result' : β → Prop}

theorem run_bind_of_ok {evaluation : Evaluation α} {env middle : Env} {value : α}
    (h : evaluation.run.run env = (.ok value, middle)) (next : α → Evaluation β) :
    (evaluation >>= next).run.run env = (next value).run.run middle := by
  rw [ExceptT.run_bind, StateT.run_bind, h]
  rfl

theorem run_bind_of_error {evaluation : Evaluation α} {env middle : Env} {fault : Fault EvalError}
    (h : evaluation.run.run env = (.error fault, middle)) (next : α → Evaluation β) :
    (evaluation >>= next).run.run env = (.error fault, middle) := by
  rw [ExceptT.run_bind, StateT.run_bind, h]
  rfl

/-- What the evaluation is sure to do where no variable has a truth value: to leave it at
that, to have a result as described, and to fail in foreseen ways only. -/
def Ensures (evaluation : Evaluation α) (result : α → Prop) : Prop :=
  ∀ env : Env, env.Plain → ∃ outcome after, evaluation.run.run env = (outcome, after) ∧
    Env.Plain after ∧ (∀ value, outcome = .ok value → result value) ∧
      ∀ error, outcome = .error (.error error) → error.cause.IsForeseen

/-- An evaluation that has a value in every environment. -/
theorem ensures_of_run_eq_ok {evaluation : Evaluation α} {value : Env → α} {after : Env → Env}
    (hrun : ∀ env, evaluation.run.run env = (.ok (value env), after env))
    (hafter : ∀ env : Env, env.Plain → Env.Plain (after env) ∧ result (value env)) :
    evaluation.Ensures result := by
  intro env henv
  refine ⟨.ok (value env), after env, hrun env, (hafter env henv).1, fun found h ↦ ?_,
    fun error h ↦ (by cases h)⟩
  cases h
  exact (hafter env henv).2

/-- An evaluation that fails in every environment. -/
theorem ensures_of_run_eq_error {evaluation : Evaluation α} {fault : Fault EvalError}
    (hrun : ∀ env, evaluation.run.run env = (.error fault, env))
    (hfault : ∀ error, fault = .error error → error.cause.IsForeseen) :
    evaluation.Ensures result := by
  intro env henv
  refine ⟨.error fault, env, hrun env, henv, fun found h ↦ (by cases h), fun error h ↦ ?_⟩
  cases h
  exact hfault error rfl

theorem ensures_pure {value : α} (h : result value) : Ensures (pure value) result :=
  ensures_of_run_eq_ok (fun _ ↦ rfl) fun _ henv ↦ ⟨henv, h⟩

theorem ensures_fail {cause : EvalError.Cause} (h : cause.IsForeseen) (pos : Pos) :
    Ensures (fail cause pos) result := by
  refine ensures_of_run_eq_error (fun _ ↦ rfl) fun error herror ↦ ?_
  cases herror
  exact h

theorem ensures_tooDeep : Ensures (throw .tooDeep) result :=
  ensures_of_run_eq_error (fun _ ↦ rfl) fun _ herror ↦ by cases herror

theorem Ensures.bind {evaluation : Evaluation α} {next : α → Evaluation β}
    (h : evaluation.Ensures result)
    (hnext : ∀ value, result value → (next value).Ensures result') :
    (evaluation >>= next).Ensures result' := by
  intro env henv
  obtain ⟨outcome, middle, hrun, hmiddle, hvalue, herror⟩ := h env henv
  cases outcome with
  | error fault =>
    refine ⟨.error fault, middle, run_bind_of_error hrun next, hmiddle,
      fun found h ↦ (by cases h), fun error h ↦ ?_⟩
    cases h
    exact herror error rfl
  | ok value =>
    rw [run_bind_of_ok hrun]
    exact hnext value (hvalue value rfl) middle hmiddle

theorem ensures_bindVariable (name : String) {value : Value} (h : value.isBoolean = false) :
    Ensures (bindVariable name value) fun _ ↦ True :=
  ensures_of_run_eq_ok (fun _ ↦ rfl) fun _ henv ↦ ⟨Env.plain_insert henv name h, trivial⟩

theorem ensures_get : Ensures (get : Evaluation Env) Env.Plain :=
  ensures_of_run_eq_ok (fun _ ↦ rfl) fun _ henv ↦ ⟨henv, henv⟩

theorem Ensures.restoring {evaluation : Evaluation α} (h : evaluation.Ensures result) :
    (restoring evaluation).Ensures result := by
  intro env henv
  obtain ⟨outcome, after, hrun, -, hvalue, herror⟩ := h env henv
  refine ⟨outcome, env, ?_, henv, hvalue, herror⟩
  change ((evaluation.run.run env).1, env) = _
  rw [hrun]

section Expressions

variable {evaluate : Expr → Evaluation Value}

theorem ensures_bindAll {bindings : List (String × Expr)}
    (h : ∀ binding ∈ bindings, (evaluate binding.2).Ensures (·.isBoolean = false)) :
    Ensures (bindAll evaluate bindings) fun _ ↦ True := by
  induction bindings with
  | nil => exact ensures_pure trivial
  | cons binding bindings ih =>
    obtain ⟨hfirst, hmore⟩ := List.forall_mem_cons.mp h
    exact hfirst.bind fun value hvalue ↦
      (ensures_bindVariable binding.1 hvalue).bind fun _ _ ↦ ih hmore

theorem ensures_numbers (function : String) (pos : Pos) {args : List Expr}
    (h : ∀ arg ∈ args, (evaluate arg).Ensures (·.isBoolean = false)) :
    Ensures (numbers evaluate function pos args) fun _ ↦ True := by
  induction args with
  | nil => exact ensures_pure trivial
  | cons arg args ih =>
    obtain ⟨hfirst, hmore⟩ := List.forall_mem_cons.mp h
    refine hfirst.bind fun value _ ↦ ?_
    cases value with
    | number x => exact (ih hmore).bind fun _ _ ↦ ensures_pure trivial
    | none => exact ensures_fail (by trivial) pos
    | boolean b => exact ensures_fail (by trivial) pos
    | text content => exact ensures_fail (by trivial) pos

variable {declarations : Declarations}

theorem ensures_access
    (h : ∀ name value, declarations.constants.find? name = some value →
      (evaluate value).Ensures (·.isBoolean = false)) (pos : Pos) (name : String) :
    (access evaluate declarations pos name).Ensures (·.isBoolean = false) := by
  refine ensures_get.bind fun env henv ↦ ?_
  split
  · next value hfind => exact ensures_pure (henv name value hfind)
  · split
    · next value hfind => exact h name value hfind
    · exact ensures_fail (by trivial) pos

/-- A call of a function that is there fails no more than its arguments and its body. -/
theorem ensures_userCall {name : String} {args : List Expr}
    (hname : declarations.functions.contains name = true)
    (hargs : ∀ arg ∈ args, (evaluate arg).Ensures (·.isBoolean = false))
    (hbody : ∀ definition, declarations.functions.find? name = some definition →
      (evaluate definition.body).Ensures (·.isBoolean = false)) (pos : Pos) :
    (userCall evaluate declarations pos name args).Ensures (·.isBoolean = false) := by
  obtain ⟨definition, hfind⟩ := Option.isSome_iff_exists.mp hname
  rw [userCall, hfind]
  dsimp only
  split
  · exact ensures_fail (by trivial) pos
  · refine Ensures.restoring ((ensures_bindAll ?_).bind fun _ _ ↦ hbody definition hfind)
    exact fun binding hbinding ↦ hargs _ (List.of_mem_zip hbinding).2

theorem ensures_builtinCall {name : String} {args : List Expr}
    (hname : declarations.builtins.contains name = true)
    (hargs : ∀ arg ∈ args, (evaluate arg).Ensures (·.isBoolean = false)) (pos : Pos) :
    (builtinCall evaluate declarations pos name args).Ensures (·.isBoolean = false) := by
  obtain ⟨builtin, hfind⟩ := Option.isSome_iff_exists.mp hname
  rw [builtinCall, hfind]
  dsimp only
  split
  · refine (ensures_numbers name pos hargs).bind fun xs _ ↦ ?_
    split
    · exact ensures_pure rfl
    · exact ensures_fail (by trivial) pos
  · exact ensures_fail (by trivial) pos

end Expressions

/-- A readable expression evaluates to a truth value if and only if it is a comparison. -/
theorem ensures_expression {declarations : Declarations} (hsound : declarations.Sound)
    (depth : Nat) {expr : Expr}
    (hnodes : expr.Everywhere (Expr.IsRead declarations.builtins
      fun name ↦ declarations.functions.contains name = true)) :
    (expression declarations depth expr).Ensures (·.isBoolean = expr.compares) := by
  induction depth generalizing expr with
  | zero => exact ensures_tooDeep
  | succ depth ih =>
    have hnode := (Expr.everywhere_iff.mp hnodes).1
    have hplain {child : Expr} (hchild : child ∈ expr.children)
        (hcompares : child.compares = false) :
        (expression declarations depth child).Ensures (·.isBoolean = false) :=
      hcompares ▸ ih (hnodes.child hchild)
    have hkept {kept : Expr} (h : declarations.Keeps kept) :
        (expression declarations depth kept).Ensures (·.isBoolean = false) :=
      h.plain ▸ ih h.nodes
    cases expr with
    | literal pos value =>
      refine ensures_pure ?_
      rcases hnode with ⟨x, rfl⟩ | ⟨content, rfl⟩ <;> rfl
    | access pos name =>
      exact ensures_access (fun name value hfind ↦ hkept (hsound.constants name value hfind)) pos
        name
    | binary pos op left right =>
      have hright : right ∈ (Expr.binary pos op left right).children :=
        List.mem_cons_of_mem _ List.mem_cons_self
      refine (hplain List.mem_cons_self hnode.2.1).bind fun leftValue _ ↦ ?_
      refine (hplain hright hnode.2.2).bind fun rightValue _ ↦ ?_
      have hforeseen := Operator.apply_foreseen hnode.1 leftValue rightValue
      split
      · next value hvalue => exact ensures_pure (hforeseen.1 value hvalue)
      · next cause hcause => exact ensures_fail (hforeseen.2 cause hcause) pos
    | ifThenElse pos condition thenBranch elseBranch =>
      -- the condition is a comparison, so that its value is a truth value
      refine (ih (hnodes.child List.mem_cons_self)).bind fun value hvalue ↦ ?_
      rw [hnode.1] at hvalue
      cases value with
      | boolean b =>
        cases b with
        | true => exact hplain (List.mem_cons_of_mem _ List.mem_cons_self) hnode.2.1
        | false =>
          refine hplain (List.mem_cons_of_mem _ (List.mem_cons_of_mem _ ?_)) hnode.2.2
          exact List.mem_cons_self
      | none => cases hvalue
      | text content => cases hvalue
      | number x => cases hvalue
    | letIn pos name value body =>
      refine (ensures_bindAll ?_).bind fun _ _ ↦
        hplain (List.mem_cons_of_mem _ List.mem_cons_self) hnode.2
      exact List.forall_mem_singleton.mpr (hplain List.mem_cons_self hnode.1)
    | letGroup pos bindings body =>
      refine (ensures_bindAll fun binding hbinding ↦ ?_).bind fun _ _ ↦
        hplain (List.mem_append_right _ List.mem_cons_self) hnode.2
      have hvalue : binding.2 ∈ bindings.map (·.2) := List.mem_map_of_mem hbinding
      exact hplain (List.mem_append_left _ hvalue) (hnode.1 binding hbinding)
    | userCall pos name args =>
      exact ensures_userCall hnode.2.1 (fun arg harg ↦ hplain harg (hnode.2.2 arg harg))
        (fun definition hfind ↦ hkept (hsound.functions name definition hfind)) pos
    | builtinCall pos name args =>
      exact ensures_builtinCall hnode.1 (fun arg harg ↦ hplain harg (hnode.2 arg harg)) pos
    | function pos name parameters body => exact hnode.elim
    | endMarker pos => exact ensures_pure rfl

end Evaluation

end Reckoner
