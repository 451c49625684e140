import Reckoner.Proofs.Evaluation.Safety

/-!
The course of an evaluation. An evaluation evaluates the expressions directly inside its own, the
constant that a name stands for and the body of the function that a call is of, each at its time
and in the environment of that time; those evaluate others in turn. The visits of an evaluation
are all of these. Bindings are made between visits and a call is undone behind its last one, so
every environment that there is on the way is one in which a visit starts or ends. The visits
directly inside an evaluation settle what it comes to, so one without a visit that comes to the
limit on nesting comes to the same under every greater limit.

Where the declarations are sound no visit meets a truth value in its environment, and the only
visits with one for their value are conditions.
-/

set_option autoImplicit false
set_option relaxedAutoImplicit false

namespace Reckoner

namespace Evaluation

section Inside

variable (evaluate : Expr → Evaluation Value)

/-- What is evaluated where bindings are made one after the other with a body behind them: each
bound expression once those before it are bound, and the body once all are. -/
inductive AsksInBlock (bindings : List (String × Expr)) (body : Expr) (env : Env) :
    Expr → Env → Prop where
  | bound {before behind : List (String × Expr)} {name : String} {value : Expr} {here : Env}
      (hbindings : bindings = before ++ (name, value) :: behind)
      (hbefore : (bindAll evaluate before).run.run env = (.ok (), here)) :
      AsksInBlock bindings body env value here
  | body {here : Env} (hbindings : (bindAll evaluate bindings).run.run env = (.ok (), here)) :
      AsksInBlock bindings body env body here

/-- What is evaluated, and in which environment, directly inside the evaluation of an expression
in the environment `env`. -/
inductive Asks (declarations : Declarations) (env : Env) : Expr → Expr → Env → Prop where
  | constant {pos : Pos} {name : String} {value : Expr} (hfree : env.find? name = none)
      (hvalue : declarations.constants.find? name = some value) :
      Asks declarations env (.access pos name) value env
  | left {pos : Pos} {op : Operator} {left right : Expr} :
      Asks declarations env (.binary pos op left right) left env
  | right {pos : Pos} {op : Operator} {left right : Expr} {value : Value} {here : Env}
      (hleft : (evaluate left).run.run env = (.ok value, here)) :
      Asks declarations env (.binary pos op left right) right here
  | condition {pos : Pos} {condition thenBranch elseBranch : Expr} :
      Asks declarations env (.ifThenElse pos condition thenBranch elseBranch) condition env
  | thenBranch {pos : Pos} {condition thenBranch elseBranch : Expr} {here : Env}
      (hcondition : (evaluate condition).run.run env = (.ok (.boolean true), here)) :
      Asks declarations env (.ifThenElse pos condition thenBranch elseBranch) thenBranch here
  | elseBranch {pos : Pos} {condition thenBranch elseBranch : Expr} {here : Env}
      (hcondition : (evaluate condition).run.run env = (.ok (.boolean false), here)) :
      Asks declarations env (.ifThenElse pos condition thenBranch elseBranch) elseBranch here
  | letIn {pos : Pos} {name : String} {value body inner : Expr} {here : Env}
      (hblock : AsksInBlock evaluate [(name, value)] body env inner here) :
      Asks declarations env (.letIn pos name value body) inner here
  | letGroup {pos : Pos} {bindings : List (String × Expr)} {body inner : Expr} {here : Env}
      (hblock : AsksInBlock evaluate bindings body env inner here) :
      Asks declarations env (.letGroup pos bindings body) inner here
  | userCall {pos : Pos} {name : String} {args : List Expr} {function : FunctionDef} {inner : Expr}
      {here : Env} (hfunction : declarations.functions.find? name = some function)
      (harity : function.parameters.length = args.length)
      (hblock : AsksInBlock evaluate (function.parameters.zip args) function.body env inner here) :
      Asks declarations env (.userCall pos name args) inner here
  | builtinCall {pos : Pos} {name : String} {before behind : List Expr} {arg : Expr}
      {builtin : Builtin} {xs : List Float} {here : Env}
      (hbuiltin : declarations.builtins.find? name = some builtin)
      (harity : builtin.arities.contains (before ++ arg :: behind).length = true)
      (hbefore : (numbers evaluate name pos before).run.run env = (.ok xs, here)) :
      Asks declarations env (.builtinCall pos name (before ++ arg :: behind)) arg here

end Inside

/-! The evaluations directly inside settle what an evaluation comes to. -/

section Settled

variable {α β : Type} {evaluate evaluate' : Expr → Evaluation Value} {env : Env}

theorem run_bind_congr {first first' : Evaluation α} {next next' : α → Evaluation β}
    (hfirst : first.run.run env = first'.run.run env)
    (hnext : ∀ value here, first.run.run env = (.ok value, here) →
      (next value).run.run here = (next' value).run.run here) :
    (first >>= next).run.run env = (first' >>= next').run.run env := by
  rcases hrun : first.run.run env with ⟨outcome, here⟩
  cases outcome with
  | error fault =>
    rw [run_bind_of_error hrun, run_bind_of_error (hfirst.symm.trans hrun)]
  | ok value =>
    rw [run_bind_of_ok hrun, run_bind_of_ok (hfirst.symm.trans hrun)]
    exact hnext value here hrun

theorem bindAll_congr {bindings : List (String × Expr)}
    (h : ∀ before name value behind here, bindings = before ++ (name, value) :: behind →
      (bindAll evaluate before).run.run env = (.ok (), here) →
        (evaluate value).run.run here = (evaluate' value).run.run here) :
    (bindAll evaluate bindings).run.run env = (bindAll evaluate' bindings).run.run env := by
  induction bindings generalizing env with
  | nil => rfl
  | cons binding bindings ih =>
    obtain ⟨name, value⟩ := binding
    refine run_bind_congr (h [] name value bindings env rfl rfl) fun found here hfound ↦ ?_
    refine run_bind_congr rfl fun _ there hthere ↦ ?_
    refine ih fun before name' value' behind here' hbindings hbefore ↦ ?_
    refine h ((name, value) :: before) name' value' behind here' (by rw [hbindings]; rfl) ?_
    rw [bindAll, run_bind_of_ok hfound, run_bind_of_ok hthere, hbefore]

theorem numbers_congr {function : String} {pos : Pos} {args : List Expr}
    (h : ∀ before arg behind xs here, args = before ++ arg :: behind →
      (numbers evaluate function pos before).run.run env = (.ok xs, here) →
        (evaluate arg).run.run here = (evaluate' arg).run.run here) :
    (numbers evaluate function pos args).run.run env =
      (numbers evaluate' function pos args).run.run env := by
  induction args generalizing env with
  | nil => rfl
  | cons arg args ih =>
    refine run_bind_congr (h [] arg args [] env rfl rfl) fun found here hfound ↦ ?_
    cases found with
    | number x =>
      refine run_bind_congr (ih fun before arg' behind xs here' hargs hbefore ↦ ?_)
        fun _ _ _ ↦ rfl
      refine h (arg :: before) arg' behind (x :: xs) here' (by rw [hargs]; rfl) ?_
      rw [numbers, run_bind_of_ok hfound]
      dsimp only
      rw [run_bind_of_ok hbefore]
      rfl
    | none => rfl
    | boolean b => rfl
    | text content => rfl

theorem block_congr {bindings : List (String × Expr)} {body : Expr}
    (h : ∀ inner here, AsksInBlock evaluate bindings body env inner here →
      (evaluate inner).run.run here = (evaluate' inner).run.run here) :
    (bindAll evaluate bindings >>= fun _ ↦ evaluate body).run.run env =
      (bindAll evaluate' bindings >>= fun _ ↦ evaluate' body).run.run env :=
  run_bind_congr
    (bindAll_congr fun _ _ _ _ _ hbindings hbefore ↦ h _ _ (.bound hbindings hbefore))
    fun _ _ hbindings ↦ h _ _ (.body hbindings)

/-- An evaluation comes to the same under two limits on nesting if the evaluations directly
inside it do. -/
theorem expression_congr {declarations : Declarations} {depth depth' : Nat} {expr : Expr}
    (h : ∀ inner here, Asks (expression declarations depth) declarations env expr inner here →
      (expression declarations depth inner).run.run here =
        (expression declarations depth' inner).run.run here) :
    (expression declarations (depth + 1) expr).run.run env =
      (expression declarations (depth' + 1) expr).run.run env := by
  cases expr with
  | literal pos value => rfl
  | access pos name =>
    refine run_bind_congr rfl fun found here hfound ↦ ?_
    cases hfound
    cases hfree : env.find? name with
    | some value => rfl
    | none =>
      cases hvalue : declarations.constants.find? name with
      | none => rfl
      | some value => exact h _ _ (.constant hfree hvalue)
  | binary pos op left right =>
    refine run_bind_congr (h _ _ .left) fun leftValue here hleft ↦ ?_
    exact run_bind_congr (h _ _ (.right hleft)) fun _ _ _ ↦ rfl
  | ifThenElse pos condition thenBranch elseBranch =>
    refine run_bind_congr (h _ _ .condition) fun value here hcondition ↦ ?_
    cases value with
    | boolean b =>
      cases b with
      | true => exact h _ _ (.thenBranch hcondition)
      | false => exact h _ _ (.elseBranch hcondition)
    | none => rfl
    | text content => rfl
    | number x => rfl
  | letIn pos name value body => exact block_congr fun _ _ hblock ↦ h _ _ (.letIn hblock)
  | letGroup pos bindings body => exact block_congr fun _ _ hblock ↦ h _ _ (.letGroup hblock)
  | userCall pos name args =>
    rw [expression, expression, userCall, userCall]
    cases hfunction : declarations.functions.find? name with
    | none => rfl
    | some function =>
      dsimp only
      split
      · rfl
      · next harity =>
        have hblock := block_congr fun inner here hblock ↦
          h inner here (.userCall hfunction (Decidable.not_not.mp harity) hblock)
        exact congrArg (fun result ↦ (result.1, env)) hblock
  | builtinCall pos name args =>
    rw [expression, expression, builtinCall, builtinCall]
    cases hbuiltin : declarations.builtins.find? name with
    | none => rfl
    | some builtin =>
      dsimp only
      split
      · next harity =>
        refine run_bind_congr (numbers_congr ?_) fun _ _ _ ↦ rfl
        rintro before arg behind xs here rfl hbefore
        exact h arg here (.builtinCall hbuiltin harity hbefore)
      · rfl
  | function pos name parameters body => rfl
  | endMarker pos => rfl

end Settled

end Evaluation

/-- An evaluation that is begun: of an expression, in an environment, with the nesting that is
left to it. -/
structure Visit where
  depth : Nat
  expr : Expr
  env : Env

namespace Visit

/-- What the evaluation comes to, and the environment that it leaves. -/
def outcome (declarations : Declarations) (visit : Visit) :
    Except (Fault EvalError) Value × Env :=
  evaluate visit.depth declarations visit.expr visit.env

/-- The second visit is the first one, or is made on the way of it. -/
inductive During (declarations : Declarations) (first : Visit) : Visit → Prop where
  | first : During declarations first first
  | inside {depth : Nat} {expr inner : Expr} {env here : Env}
      (hvisit : During declarations first ⟨depth + 1, expr, env⟩)
      (hasks : Evaluation.Asks (Evaluation.expression declarations depth) declarations env expr
        inner here) :
      During declarations first ⟨depth, inner, here⟩

theorem During.trans {declarations : Declarations} {first middle visit : Visit}
    (h : During declarations first middle) (hbehind : During declarations middle visit) :
    During declarations first visit := by
  induction hbehind with
  | first => exact h
  | inside _ hasks ih => exact .inside ih hasks

/-- No visit is missing from the way of an evaluation: it is cut off only where one of them comes
to the limit on nesting, and is the same under every greater limit otherwise. -/
theorem outcome_of_limit {declarations : Declarations} {depth : Nat} {expr : Expr} {env : Env}
    (h : ∀ visit, During declarations ⟨depth, expr, env⟩ visit → visit.depth ≠ 0) (more : Nat) :
    outcome declarations ⟨depth + more, expr, env⟩ = outcome declarations ⟨depth, expr, env⟩ := by
  induction depth generalizing expr env with
  | zero => exact absurd rfl (h _ .first)
  | succ depth ih =>
    rw [Nat.add_right_comm]
    refine (Evaluation.expression_congr fun inner here hasks ↦ ?_).symm
    have hinner : During declarations ⟨depth + 1, expr, env⟩ ⟨depth, inner, here⟩ :=
      .inside .first hasks
    exact (ih fun visit hvisit ↦ h visit (hinner.trans hvisit)).symm

/-- Whether the visit is one to the condition of an `if` on the way of the first visit. -/
def IsCondition (declarations : Declarations) (first visit : Visit) : Prop :=
  ∃ pos thenBranch elseBranch, During declarations first
    ⟨visit.depth + 1, .ifThenElse pos visit.expr thenBranch elseBranch, visit.env⟩

end Visit

/-! Under sound declarations no environment on the way has a truth value in it. -/

/-- Whether all nodes of the expression are such as may be kept among the declarations. -/
def Declarations.KeepsNodes (declarations : Declarations) (expr : Expr) : Prop :=
  expr.Everywhere (Expr.IsRead declarations.builtins
    fun name ↦ declarations.functions.contains name = true)

namespace Evaluation

variable {declarations : Declarations} {depth : Nat} {env here : Env} {expr inner : Expr}

theorem Ensures.plain_after {α : Type} {evaluation : Evaluation α} {result : α → Prop}
    {outcome : Except (Fault EvalError) α} (h : evaluation.Ensures result) (henv : env.Plain)
    (hrun : evaluation.run.run env = (outcome, here)) : here.Plain := by
  obtain ⟨outcome', after, hrun', hafter, -⟩ := h env henv
  rw [hrun] at hrun'
  cases hrun'
  exact hafter

/-- What stands in an expression that may be kept has no truth value, unless it compares. -/
theorem ensures_child (hsound : declarations.Sound) (depth : Nat)
    (hnodes : declarations.KeepsNodes expr) {child : Expr} (hchild : child ∈ expr.children)
    (hplain : child.compares = false) :
    (expression declarations depth child).Ensures (·.isBoolean = false) :=
  hplain ▸ ensures_expression hsound depth (hnodes.child hchild)

/-- Bindings without truth values leave none in any environment up to the body. -/
theorem AsksInBlock.plain {evaluate : Expr → Evaluation Value} {bindings : List (String × Expr)}
    {body : Expr} (hbindings : ∀ binding ∈ bindings,
      (evaluate binding.2).Ensures (·.isBoolean = false)) (henv : env.Plain)
    (h : AsksInBlock evaluate bindings body env inner here) :
    here.Plain ∧ (inner = body ∨ ∃ binding ∈ bindings, inner = binding.2) := by
  cases h with
  | @bound before behind name value _ hsplit hbefore =>
    subst hsplit
    obtain ⟨hfirst, hmore⟩ := List.forall_mem_append.mp hbindings
    exact ⟨(ensures_bindAll hfirst).plain_after henv hbefore, .inr ⟨(name, inner), by simp, rfl⟩⟩
  | body hall => exact ⟨(ensures_bindAll hbindings).plain_after henv hall, .inl rfl⟩

/-- One step of the way: where no truth value is bound in front of an evaluation, none is bound
in front of those directly inside it, and of these only conditions compare. -/
theorem Asks.plain (hsound : declarations.Sound) (henv : env.Plain)
    (hnodes : declarations.KeepsNodes expr)
    (h : Asks (expression declarations depth) declarations env expr inner here) :
    here.Plain ∧ declarations.KeepsNodes inner ∧ (inner.compares = true →
      here = env ∧ ∃ pos thenBranch elseBranch,
        expr = .ifThenElse pos inner thenBranch elseBranch) := by
  have hnode := (Expr.everywhere_iff.mp hnodes).1
  have hplain {child : Expr} (hhere : here.Plain) (hchild : child ∈ expr.children)
      (hcompares : child.compares = false) :
      here.Plain ∧ declarations.KeepsNodes child ∧ (child.compares = true →
        here = env ∧ ∃ pos thenBranch elseBranch,
          expr = .ifThenElse pos child thenBranch elseBranch) :=
    ⟨hhere, hnodes.child hchild, fun h ↦ by rw [hcompares] at h; cases h⟩
  have hkept {kept : Expr} (hhere : here.Plain) (h : declarations.Keeps kept) :
      here.Plain ∧ declarations.KeepsNodes kept ∧ (kept.compares = true →
        here = env ∧ ∃ pos thenBranch elseBranch,
          expr = .ifThenElse pos kept thenBranch elseBranch) :=
    ⟨hhere, h.nodes, fun hcompares ↦ by rw [h.plain] at hcompares; cases hcompares⟩
  cases h with
  | constant hfree hvalue => exact hkept henv (hsound.constants _ _ hvalue)
  | left => exact hplain henv List.mem_cons_self hnode.2.1
  | right hleft =>
    have hhere := (ensures_child hsound depth hnodes List.mem_cons_self hnode.2.1).plain_after
      henv hleft
    exact hplain hhere (List.mem_cons_of_mem _ List.mem_cons_self) hnode.2.2
  | @condition pos _ thenBranch elseBranch =>
    exact ⟨henv, hnodes.child List.mem_cons_self, fun _ ↦ ⟨rfl, pos, thenBranch, elseBranch, rfl⟩⟩
  | thenBranch hcondition =>
    have hhere := (ensures_expression hsound depth (hnodes.child List.mem_cons_self)).plain_after
      henv hcondition
    exact hplain hhere (List.mem_cons_of_mem _ List.mem_cons_self) hnode.2.1
  | elseBranch hcondition =>
    have hhere := (ensures_expression hsound depth (hnodes.child List.mem_cons_self)).plain_after
      henv hcondition
    exact hplain hhere (by simp [Expr.children]) hnode.2.2
  | @letIn pos name value body _ _ hblock =>
    obtain ⟨hhere, rfl | ⟨binding, hbinding, rfl⟩⟩ := hblock.plain
      (List.forall_mem_singleton.mpr
        (ensures_child hsound depth hnodes List.mem_cons_self hnode.1)) henv
    · exact hplain hhere (List.mem_cons_of_mem _ List.mem_cons_self) hnode.2
    · cases List.mem_singleton.mp hbinding
      exact hplain hhere List.mem_cons_self hnode.1
  | @letGroup pos bindings body _ _ hblock =>
    have hmem (binding : String × Expr) (hbinding : binding ∈ bindings) :
        binding.2 ∈ (Expr.letGroup pos bindings body).children :=
      List.mem_append_left _ (List.mem_map_of_mem hbinding)
    obtain ⟨hhere, rfl | ⟨binding, hbinding, rfl⟩⟩ := hblock.plain
      (fun binding hbinding ↦ ensures_child hsound depth hnodes (hmem binding hbinding)
        (hnode.1 binding hbinding)) henv
    · exact hplain hhere (List.mem_append_right _ List.mem_cons_self) hnode.2
    · exact hplain hhere (hmem binding hbinding) (hnode.1 binding hbinding)
  | @userCall pos name args function _ _ hfunction harity hblock =>
    have hmem (binding : String × Expr) (hbinding : binding ∈ function.parameters.zip args) :
        binding.2 ∈ args :=
      (List.of_mem_zip hbinding).2
    obtain ⟨hhere, rfl | ⟨binding, hbinding, rfl⟩⟩ := hblock.plain
      (fun binding hbinding ↦ ensures_child hsound depth hnodes (hmem binding hbinding)
        (hnode.2.2 _ (hmem binding hbinding))) henv
    · exact hkept hhere (hsound.functions _ _ hfunction)
    · exact hplain hhere (hmem binding hbinding) (hnode.2.2 _ (hmem binding hbinding))
  | @builtinCall pos name before behind _ builtin xs _ hbuiltin harity hbefore =>
    have hargs (arg : Expr) (harg : arg ∈ before) :
        (expression declarations depth arg).Ensures (·.isBoolean = false) :=
      ensures_child hsound depth hnodes (List.mem_append_left _ harg)
        (hnode.2 arg (List.mem_append_left _ harg))
    have hhere := (ensures_numbers name pos hargs).plain_after henv hbefore
    have hinner : inner ∈ before ++ inner :: behind :=
      List.mem_append_right _ List.mem_cons_self
    exact hplain hhere hinner (hnode.2 inner hinner)

end Evaluation

namespace Visit

open Evaluation

variable {declarations : Declarations} {first visit : Visit}

/-- The whole way: no visit starts where a truth value is bound, and of all visits behind the
first one only those to conditions compare. -/
theorem During.plain (hsound : declarations.Sound) (henv : first.env.Plain)
    (hexpr : declarations.Keeps first.expr) (h : During declarations first visit) :
    visit.env.Plain ∧ declarations.KeepsNodes visit.expr ∧
      (visit.expr.compares = true → IsCondition declarations first visit) := by
  induction h with
  | first =>
    refine ⟨henv, hexpr.nodes, fun hcompares ↦ ?_⟩
    rw [hexpr.plain] at hcompares
    cases hcompares
  | @inside depth expr inner env here hvisit hasks ih =>
    obtain ⟨henv, hnodes, -⟩ := ih
    obtain ⟨hhere, hinner, hcondition⟩ := hasks.plain hsound henv hnodes
    refine ⟨hhere, hinner, fun hcompares ↦ ?_⟩
    obtain ⟨rfl, pos, thenBranch, elseBranch, rfl⟩ := hcondition hcompares
    exact ⟨pos, thenBranch, elseBranch, hvisit⟩

/-- On the way of an expression that may be kept no truth value is ever bound, and only
conditions have one for their value. -/
theorem During.plain_outcome (hsound : declarations.Sound) (henv : first.env.Plain)
    (hexpr : declarations.Keeps first.expr) (h : During declarations first visit) :
    visit.env.Plain ∧ (visit.outcome declarations).2.Plain ∧
      ∀ value, (visit.outcome declarations).1 = .ok value → value.isBoolean = true →
        IsCondition declarations first visit := by
  obtain ⟨hhere, hnodes, hcondition⟩ := h.plain hsound henv hexpr
  obtain ⟨outcome, after, hrun, hafter, hvalue, -⟩ :=
    ensures_expression hsound visit.depth hnodes visit.env hhere
  have houtcome : visit.outcome declarations = (outcome, after) := hrun
  rw [houtcome]
  refine ⟨hhere, hafter, fun value hok hboolean ↦ hcondition ?_⟩
  rw [← hvalue value hok, hboolean]

end Visit

end Reckoner
