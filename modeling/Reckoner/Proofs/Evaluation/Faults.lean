import Reckoner.Proofs.Evaluation.Course

/-!
Where the fault of an evaluation comes from. An evaluation that fails does so itself, at its own
position, or passes on how one of the evaluations directly inside it failed. So on the way of every
failing evaluation there is a visit that has no nesting left to it, or whose expression the error
is about. What is evaluated directly inside an expression stands in it, or is what the name in it
refers to.
-/

set_option autoImplicit false
set_option relaxedAutoImplicit false

namespace Reckoner

namespace Evaluation

section Faults

variable {α β : Type} {evaluate : Expr → Evaluation Value} {env : Env} {fault : Fault EvalError}

/-- Evaluations one after the other fail where the first fails, or the second behind it. -/
theorem fault_bind_cases {first : Evaluation α} {next : α → Evaluation β}
    (h : ((first >>= next).run.run env).1 = .error fault) :
    (first.run.run env).1 = .error fault ∨ ∃ value here,
      first.run.run env = (.ok value, here) ∧ ((next value).run.run here).1 = .error fault := by
  rcases hrun : first.run.run env with ⟨outcome, here⟩
  cases outcome with
  | error found =>
    rw [run_bind_of_error hrun] at h
    exact .inl (congrArg Except.error (Except.error.inj h))
  | ok value =>
    rw [run_bind_of_ok hrun] at h
    exact .inr ⟨value, here, rfl, h⟩

theorem fault_fail {cause : EvalError.Cause} {pos : Pos}
    (h : ((fail cause pos : Evaluation α).run.run env).1 = .error fault) :
    fault = .error ⟨cause, pos⟩ :=
  (Except.error.inj h).symm

/-- Bindings fail where one of the bound expressions does. -/
theorem fault_bindAll_cases {bindings : List (String × Expr)}
    (h : ((bindAll evaluate bindings).run.run env).1 = .error fault) :
    ∃ before name value behind here, bindings = before ++ (name, value) :: behind ∧
      (bindAll evaluate before).run.run env = (.ok (), here) ∧
        ((evaluate value).run.run here).1 = .error fault := by
  induction bindings generalizing env with
  | nil => cases h
  | cons binding bindings ih =>
    obtain ⟨name, value⟩ := binding
    rcases fault_bind_cases h with hvalue | ⟨found, here, hfound, hrest⟩
    · exact ⟨[], name, value, bindings, env, rfl, rfl, hvalue⟩
    · rcases fault_bind_cases hrest with hbind | ⟨_, bound, hbound, hmore⟩
      · cases hbind
      · obtain ⟨before, name', value', behind, here', rfl, hbefore, hfault⟩ := ih hmore
        refine ⟨(name, value) :: before, name', value', behind, here', rfl, ?_, hfault⟩
        rw [bindAll, run_bind_of_ok hfound, run_bind_of_ok hbound, hbefore]

/-- Arguments that must be numbers fail where one of them is none, or fails itself. -/
theorem fault_numbers_cases {function : String} {pos : Pos} {args : List Expr}
    (h : ((numbers evaluate function pos args).run.run env).1 = .error fault) :
    (∃ cause, fault = .error ⟨cause, pos⟩) ∨ ∃ before arg behind xs here,
      args = before ++ arg :: behind ∧
        (numbers evaluate function pos before).run.run env = (.ok xs, here) ∧
          ((evaluate arg).run.run here).1 = .error fault := by
  induction args generalizing env with
  | nil => cases h
  | cons arg args ih =>
    rcases fault_bind_cases h with harg | ⟨found, here, hfound, hrest⟩
    · exact .inr ⟨[], arg, args, [], env, rfl, rfl, harg⟩
    · cases found with
      | number x =>
        rcases fault_bind_cases hrest with hmore | ⟨xs, there, hxs, hpure⟩
        · refine (ih hmore).imp_right ?_
          rintro ⟨before, arg', behind, xs, here', rfl, hbefore, hfault⟩
          refine ⟨arg :: before, arg', behind, x :: xs, here', rfl, ?_, hfault⟩
          rw [numbers, run_bind_of_ok hfound]
          dsimp only
          rw [run_bind_of_ok hbefore]
          rfl
        · cases hpure
      | none => exact .inl ⟨_, fault_fail hrest⟩
      | boolean b => exact .inl ⟨_, fault_fail hrest⟩
      | text content => exact .inl ⟨_, fault_fail hrest⟩

theorem fault_block_cases {bindings : List (String × Expr)} {body : Expr}
    (h : ((bindAll evaluate bindings >>= fun _ ↦ evaluate body).run.run env).1 = .error fault) :
    ∃ inner here, AsksInBlock evaluate bindings body env inner here ∧
      ((evaluate inner).run.run here).1 = .error fault := by
  rcases fault_bind_cases h with hbindings | ⟨_, here, hbound, hbody⟩
  · obtain ⟨before, name, value, behind, here, hsplit, hbefore, hfault⟩ :=
      fault_bindAll_cases hbindings
    exact ⟨value, here, .bound hsplit hbefore, hfault⟩
  · exact ⟨body, here, .body hbound, hbody⟩

/-- One step: a fault is about the expression itself, or was the fault of an evaluation directly
inside. -/
theorem fault_expression_cases {declarations : Declarations} {depth : Nat} {expr : Expr}
    (h : ((expression declarations (depth + 1) expr).run.run env).1 = .error fault) :
    (∃ cause, fault = .error ⟨cause, expr.pos⟩) ∨ ∃ inner here,
      Asks (expression declarations depth) declarations env expr inner here ∧
        ((expression declarations depth inner).run.run here).1 = .error fault := by
  cases expr with
  | literal pos value => cases h
  | access pos name =>
    rcases fault_bind_cases h with hget | ⟨_, _, hget, hfound⟩
    · cases hget
    · cases hget
      cases hfree : env.find? name with
      | some value =>
        rw [hfree] at hfound
        cases hfound
      | none =>
        rw [hfree] at hfound
        cases hvalue : declarations.constants.find? name with
        | none =>
          rw [hvalue] at hfound
          exact .inl ⟨_, fault_fail hfound⟩
        | some value =>
          rw [hvalue] at hfound
          exact .inr ⟨value, env, .constant hfree hvalue, hfound⟩
  | binary pos op left right =>
    rcases fault_bind_cases h with hleft | ⟨leftValue, here, hleft, hrest⟩
    · exact .inr ⟨left, env, .left, hleft⟩
    · rcases fault_bind_cases hrest with hright | ⟨rightValue, there, hright, happly⟩
      · exact .inr ⟨right, here, .right hleft, hright⟩
      · cases hresult : op.apply leftValue rightValue with
        | ok value =>
          rw [hresult] at happly
          cases happly
        | error cause =>
          rw [hresult] at happly
          exact .inl ⟨cause, fault_fail happly⟩
  | ifThenElse pos condition thenBranch elseBranch =>
    rcases fault_bind_cases h with hcondition | ⟨value, here, hcondition, hbranch⟩
    · exact .inr ⟨condition, env, .condition, hcondition⟩
    · cases value with
      | boolean b =>
        cases b with
        | true => exact .inr ⟨thenBranch, here, .thenBranch hcondition, hbranch⟩
        | false => exact .inr ⟨elseBranch, here, .elseBranch hcondition, hbranch⟩
      | none => exact .inl ⟨_, fault_fail hbranch⟩
      | text content => exact .inl ⟨_, fault_fail hbranch⟩
      | number x => exact .inl ⟨_, fault_fail hbranch⟩
  | letIn pos name value body =>
    obtain ⟨inner, here, hblock, hfault⟩ := fault_block_cases h
    exact .inr ⟨inner, here, .letIn hblock, hfault⟩
  | letGroup pos bindings body =>
    obtain ⟨inner, here, hblock, hfault⟩ := fault_block_cases h
    exact .inr ⟨inner, here, .letGroup hblock, hfault⟩
  | userCall pos name args =>
    rw [expression, userCall] at h
    cases hfunction : declarations.functions.find? name with
    | none =>
      rw [hfunction] at h
      exact .inl ⟨_, fault_fail h⟩
    | some function =>
      rw [hfunction] at h
      dsimp only at h
      split at h
      · exact .inl ⟨_, fault_fail h⟩
      · next harity =>
        obtain ⟨inner, here, hblock, hfault⟩ := fault_block_cases h
        exact .inr ⟨inner, here, .userCall hfunction (Decidable.not_not.mp harity) hblock, hfault⟩
  | builtinCall pos name args =>
    rw [expression, builtinCall] at h
    cases hbuiltin : declarations.builtins.find? name with
    | none =>
      rw [hbuiltin] at h
      exact .inl ⟨_, fault_fail h⟩
    | some builtin =>
      rw [hbuiltin] at h
      dsimp only at h
      split at h
      · next harity =>
        rcases fault_bind_cases h with hargs | ⟨xs, there, hxs, happly⟩
        · refine (fault_numbers_cases hargs).imp_right ?_
          rintro ⟨before, arg, behind, xs, here, rfl, hbefore, hfault⟩
          exact ⟨arg, here, .builtinCall hbuiltin harity hbefore, hfault⟩
        · cases hresult : builtin.apply xs with
          | ok x =>
            rw [hresult] at happly
            cases happly
          | error cause =>
            rw [hresult] at happly
            exact .inl ⟨_, fault_fail happly⟩
      · exact .inl ⟨_, fault_fail h⟩
  | function pos name parameters body => cases h
  | endMarker pos => cases h

end Faults

end Evaluation

/-- The whole way: a fault comes from a visit that has no nesting left to it, or from one that
fails at the position of its own expression. -/
theorem Visit.exists_of_fault {declarations : Declarations} {first : Visit}
    {fault : Fault EvalError} (h : (first.outcome declarations).1 = .error fault) :
    ∃ visit, During declarations first visit ∧ (visit.outcome declarations).1 = .error fault ∧
      (visit.depth = 0 ∨ ∃ cause, fault = .error ⟨cause, visit.expr.pos⟩) := by
  obtain ⟨depth, expr, env⟩ := first
  induction depth generalizing expr env with
  | zero => exact ⟨_, .first, h, .inl rfl⟩
  | succ depth ih =>
    rcases Evaluation.fault_expression_cases h with hcause | ⟨inner, here, hasks, hfault⟩
    · exact ⟨_, .first, h, .inr hcause⟩
    · obtain ⟨visit, hvisit, houtcome, hwhere⟩ := ih inner here hfault
      exact ⟨visit, .trans (.inside .first hasks) hvisit, houtcome, hwhere⟩

/-! What is evaluated directly inside an expression is a part of it, or what its name refers to. -/

/-- What a name can refer to beside a variable or a built-in function. -/
inductive Reference where
  | function (name : String)
  | constant (name : String)
  deriving DecidableEq

/-- What the expression itself refers to: the function that it calls, or the constant of the name
that it is. -/
def Expr.reference? : Expr → Option Reference
  | .access _ name => some (.constant name)
  | .userCall _ name _ => some (.function name)
  | _ => none

/-- What a reference stands for: the body of the function or the expression of the constant. -/
def Declarations.definition? (declarations : Declarations) : Reference → Option Expr
  | .function name => (declarations.functions.find? name).map (·.body)
  | .constant name => declarations.constants.find? name

/-- The expression that an evaluation goes on with stands directly inside, or is what is referred
to. -/
theorem Evaluation.Asks.child_or_definition {evaluate : Expr → Evaluation Value}
    {declarations : Declarations} {env here : Env} {expr inner : Expr}
    (h : Asks evaluate declarations env expr inner here) :
    inner ∈ expr.children ∨ ∃ reference, expr.reference? = some reference ∧
      declarations.definition? reference = some inner := by
  have hblock {bindings : List (String × Expr)} {body : Expr}
      (hblock : AsksInBlock evaluate bindings body env inner here) :
      inner = body ∨ ∃ binding ∈ bindings, inner = binding.2 := by
    cases hblock with
    | @bound before behind name _ _ hbindings _ =>
      exact .inr ⟨(name, inner), hbindings ▸ List.mem_append_right _ List.mem_cons_self, rfl⟩
    | body _ => exact .inl rfl
  cases h with
  | @constant pos name _ hfree hvalue => exact .inr ⟨.constant name, rfl, hvalue⟩
  | left => exact .inl List.mem_cons_self
  | right _ => exact .inl (List.mem_cons_of_mem _ List.mem_cons_self)
  | condition => exact .inl List.mem_cons_self
  | thenBranch _ => exact .inl (List.mem_cons_of_mem _ List.mem_cons_self)
  | elseBranch _ => exact .inl (by simp [Expr.children])
  | letIn h =>
    obtain rfl | ⟨binding, hbinding, rfl⟩ := hblock h
    · exact .inl (List.mem_cons_of_mem _ List.mem_cons_self)
    · cases List.mem_singleton.mp hbinding
      exact .inl List.mem_cons_self
  | letGroup h =>
    obtain rfl | ⟨binding, hbinding, rfl⟩ := hblock h
    · exact .inl (List.mem_append_right _ List.mem_cons_self)
    · exact .inl (List.mem_append_left _ (List.mem_map_of_mem hbinding))
  | @userCall pos name args function _ _ hfunction harity h =>
    obtain rfl | ⟨binding, hbinding, rfl⟩ := hblock h
    · exact .inr ⟨.function name, rfl, by rw [Declarations.definition?, hfunction]; rfl⟩
    · exact .inl (List.of_mem_zip hbinding).2
  | builtinCall _ _ _ => exact .inl (List.mem_append_right _ List.mem_cons_self)

end Reckoner
