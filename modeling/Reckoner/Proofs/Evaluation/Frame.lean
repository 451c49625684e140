import Reckoner.Proofs.Evaluation.Safety

/-!
What an evaluation leaves of the environment. Whether it has a result or fails, no variable is lost,
and those that it binds or binds anew have their names from a `let` on its way: one in the
expression itself or in a constant that the expression names, but none in a call of a declared
function. Such a call leaves the environment as it was, with what is bound in its arguments and
in the body of the function.
-/

set_option autoImplicit false
set_option relaxedAutoImplicit false

namespace Reckoner

namespace Expr

/-- Whether the expression is a `let` that binds the name. -/
def Binds (name : String) : Expr → Prop
  | letIn _ bound _ _ => bound = name
  | letGroup _ bindings _ => name ∈ bindings.map (·.1)
  | _ => False

/-- Whether the expression is a call of a declared function. -/
def isUserCall : Expr → Bool
  | userCall _ _ _ => true
  | _ => false

/-- The second expression is the first one, or there is a way to it that goes from expressions to
those directly inside them and from names to the constants they stand for, and not through a call
of a declared function. -/
inductive LeadsTo (declarations : Declarations) : Expr → Expr → Prop where
  | self (expr : Expr) : LeadsTo declarations expr expr
  | inside {expr child node : Expr} (hcall : expr.isUserCall = false)
      (hchild : child ∈ expr.children) (hnode : LeadsTo declarations child node) :
      LeadsTo declarations expr node
  | constant {pos : Pos} {name : String} {value node : Expr}
      (hvalue : declarations.constants.find? name = some value)
      (hnode : LeadsTo declarations value node) : LeadsTo declarations (access pos name) node

/-- Whether a `let` that binds the name is on a way from the expression. -/
def MayBind (declarations : Declarations) (expr : Expr) (name : String) : Prop :=
  ∃ node, expr.LeadsTo declarations node ∧ node.Binds name

variable {declarations : Declarations} {expr : Expr} {name : String}

theorem MayBind.of_child {child : Expr} (hcall : expr.isUserCall = false)
    (hchild : child ∈ expr.children) (h : child.MayBind declarations name) :
    expr.MayBind declarations name := by
  obtain ⟨node, hnode, hbinds⟩ := h
  exact ⟨node, .inside hcall hchild hnode, hbinds⟩

theorem MayBind.of_constant {pos : Pos} {constant : String} {value : Expr}
    (hvalue : declarations.constants.find? constant = some value)
    (h : value.MayBind declarations name) : (access pos constant).MayBind declarations name := by
  obtain ⟨node, hnode, hbinds⟩ := h
  exact ⟨node, .constant hvalue hnode, hbinds⟩

theorem Binds.mayBind (h : expr.Binds name) : expr.MayBind declarations name :=
  ⟨expr, .self expr, h⟩

end Expr

namespace Env

/-- Whether the second environment has all variables of the first one, and other values for the
given names at most. -/
structure GrowsTo (names : String → Prop) (before after : Env) : Prop where
  kept : ∀ name, before.contains name = true → after.contains name = true
  changed : ∀ name, after.find? name ≠ before.find? name → names name

variable {names : String → Prop} {before middle after : Env}

theorem GrowsTo.refl (env : Env) : GrowsTo names env env where
  kept _ h := h
  changed _ h := absurd rfl h

theorem GrowsTo.trans (h : GrowsTo names before middle) (hbehind : GrowsTo names middle after) :
    GrowsTo names before after where
  kept name hname := hbehind.kept name (h.kept name hname)
  changed name hname := by
    by_cases hsame : middle.find? name = before.find? name
    · exact hbehind.changed name (hsame ▸ hname)
    · exact h.changed name hsame

theorem growsTo_insert (env : Env) {name : String} (h : names name) (value : Value) :
    GrowsTo names env (env.insert name value) where
  kept other hother := by
    rw [NameMap.contains, NameMap.find?_insert]
    split
    · rfl
    · exact hother
  changed other hother := by
    rw [NameMap.find?_insert] at hother
    split at hother
    · next hsame => exact hsame ▸ h
    · exact absurd rfl hother

end Env

namespace Evaluation

variable {α β : Type} {names : String → Prop}

/-- What the evaluation leaves of every environment, whether it has a result or fails: one with
other values for the given names at most. -/
def Grows (names : String → Prop) (evaluation : Evaluation α) : Prop :=
  ∀ env : Env, env.GrowsTo names (evaluation.run.run env).2

/-- An evaluation that leaves every environment as it is. -/
theorem grows_of_same {evaluation : Evaluation α} (h : ∀ env, (evaluation.run.run env).2 = env) :
    Grows names evaluation := by
  intro env
  rw [h env]
  exact .refl env

theorem grows_pure (value : α) : Grows names (pure value : Evaluation α) :=
  grows_of_same fun _ ↦ rfl

theorem grows_fail (cause : EvalError.Cause) (pos : Pos) :
    Grows names (fail cause pos : Evaluation α) :=
  grows_of_same fun _ ↦ rfl

theorem Grows.bind {evaluation : Evaluation α} {next : α → Evaluation β}
    (h : Grows names evaluation) (hnext : ∀ value, Grows names (next value)) :
    Grows names (evaluation >>= next) := by
  intro env
  have hfirst := h env
  rcases hrun : evaluation.run.run env with ⟨outcome, here⟩
  rw [hrun] at hfirst
  cases outcome with
  | error fault =>
    rw [run_bind_of_error hrun]
    exact hfirst
  | ok value =>
    rw [run_bind_of_ok hrun]
    exact hfirst.trans (hnext value here)

section Expressions

variable {evaluate : Expr → Evaluation Value} {declarations : Declarations}

theorem grows_bindAll {bindings : List (String × Expr)}
    (hnames : ∀ binding ∈ bindings, names binding.1)
    (h : ∀ binding ∈ bindings, Grows names (evaluate binding.2)) :
    Grows names (bindAll evaluate bindings) := by
  induction bindings with
  | nil => exact grows_pure ()
  | cons binding bindings ih =>
    obtain ⟨hname, hmoreNames⟩ := List.forall_mem_cons.mp hnames
    obtain ⟨hfirst, hmore⟩ := List.forall_mem_cons.mp h
    refine hfirst.bind fun value ↦ Grows.bind ?_ fun _ ↦ ih hmoreNames hmore
    exact fun env ↦ Env.growsTo_insert env hname value

theorem grows_numbers (function : String) (pos : Pos) {args : List Expr}
    (h : ∀ arg ∈ args, Grows names (evaluate arg)) :
    Grows names (numbers evaluate function pos args) := by
  induction args with
  | nil => exact grows_pure []
  | cons arg args ih =>
    obtain ⟨hfirst, hmore⟩ := List.forall_mem_cons.mp h
    refine hfirst.bind fun value ↦ ?_
    cases value with
    | number x => exact (ih hmore).bind fun _ ↦ grows_pure _
    | none => exact grows_fail _ pos
    | boolean b => exact grows_fail _ pos
    | text content => exact grows_fail _ pos

theorem grows_access {name : String} (pos : Pos)
    (h : ∀ value, declarations.constants.find? name = some value → Grows names (evaluate value)) :
    Grows names (access evaluate declarations pos name) := by
  refine Grows.bind (grows_of_same fun _ ↦ rfl) fun env ↦ ?_
  split
  · exact grows_pure _
  · split
    · next value hvalue => exact h value hvalue
    · exact grows_fail _ pos

theorem grows_builtinCall {name : String} {args : List Expr} (pos : Pos)
    (h : ∀ arg ∈ args, Grows names (evaluate arg)) :
    Grows names (builtinCall evaluate declarations pos name args) := by
  unfold builtinCall
  split
  · exact grows_fail _ pos
  · split
    · refine (grows_numbers name pos h).bind fun xs ↦ ?_
      split
      · exact grows_pure _
      · exact grows_fail _ pos
    · exact grows_fail _ pos

/-- A call of a declared function puts the environment back, however it ends. -/
theorem env_userCall (pos : Pos) (name : String) (args : List Expr) (env : Env) :
    ((userCall evaluate declarations pos name args).run.run env).2 = env := by
  unfold userCall
  split
  · rfl
  · split <;> rfl

end Expressions

/-- An evaluation binds no names but those that a `let` on its way binds. -/
theorem grows_expression (declarations : Declarations) (depth : Nat) (expr : Expr) :
    Grows (expr.MayBind declarations) (expression declarations depth expr) := by
  -- whatever an expression leads to may bind some of its names
  have hmore {expr : Expr} {names : String → Prop} {evaluation : Evaluation Value}
      (h : Grows (expr.MayBind declarations) evaluation)
      (hnames : ∀ name, expr.MayBind declarations name → names name) : Grows names evaluation :=
    fun env ↦ ⟨(h env).kept, fun name hname ↦ hnames name ((h env).changed name hname)⟩
  induction depth generalizing expr with
  | zero => exact grows_of_same fun _ ↦ rfl
  | succ depth ih =>
    have hchild {child : Expr} (hcall : expr.isUserCall = false) (hmem : child ∈ expr.children) :
        Grows (expr.MayBind declarations) (expression declarations depth child) :=
      hmore (ih child) fun _ ↦ .of_child hcall hmem
    cases expr with
    | literal pos value => exact grows_pure value
    | access pos name =>
      exact grows_access pos fun value hvalue ↦ hmore (ih value) fun _ ↦ .of_constant hvalue
    | binary pos op left right =>
      refine (hchild rfl List.mem_cons_self).bind fun leftValue ↦ ?_
      refine (hchild rfl (List.mem_cons_of_mem _ List.mem_cons_self)).bind fun rightValue ↦ ?_
      split
      · exact grows_pure _
      · exact grows_fail _ pos
    | ifThenElse pos condition thenBranch elseBranch =>
      have hthen : thenBranch ∈ [condition, thenBranch, elseBranch] := by simp
      have helse : elseBranch ∈ [condition, thenBranch, elseBranch] := by simp
      refine (hchild rfl List.mem_cons_self).bind fun value ↦ ?_
      cases value with
      | boolean b =>
        cases b with
        | true => exact hchild rfl hthen
        | false => exact hchild rfl helse
      | none => exact grows_fail _ pos
      | text content => exact grows_fail _ pos
      | number x => exact grows_fail _ pos
    | letIn pos name value body =>
      refine (grows_bindAll ?_ ?_).bind fun _ ↦
        hchild rfl (List.mem_cons_of_mem _ List.mem_cons_self)
      · exact List.forall_mem_singleton.mpr (Expr.Binds.mayBind rfl)
      · exact List.forall_mem_singleton.mpr (hchild rfl List.mem_cons_self)
    | letGroup pos bindings body =>
      refine (grows_bindAll (fun binding hbinding ↦ ?_) fun binding hbinding ↦ ?_).bind fun _ ↦
        hchild rfl (List.mem_append_right _ List.mem_cons_self)
      · exact Expr.Binds.mayBind (List.mem_map_of_mem hbinding)
      · exact hchild rfl (List.mem_append_left _ (List.mem_map_of_mem hbinding))
    | userCall pos name args => exact grows_of_same (env_userCall pos name args)
    | builtinCall pos name args => exact grows_builtinCall pos fun arg harg ↦ hchild rfl harg
    | function pos name parameters body => exact grows_pure _
    | endMarker pos => exact grows_pure _

end Evaluation

/-- Evaluation changes only what it must. Whatever comes of it, every variable that was bound before
still is, and one whose value is new or different is bound by a `let` that the expression leads to
through its parts and through the constants it names, but not through calls of declared functions.
Such a call leaves the environment as it was. -/
theorem evaluate_frame (limit : Nat) (declarations : Declarations) (expr : Expr) (env : Env) :
    let after := (evaluate limit declarations expr env).2
    (∀ name, env.contains name = true → after.contains name = true) ∧
    (∀ name, after.find? name ≠ env.find? name →
      ∃ node, expr.LeadsTo declarations node ∧ node.Binds name) ∧
    ∀ pos name args, expr = .userCall pos name args → after = env := by
  intro after
  have hgrows := Evaluation.grows_expression declarations limit expr env
  refine ⟨hgrows.kept, hgrows.changed, ?_⟩
  rintro pos name args rfl
  cases limit with
  | zero => rfl
  | succ depth => exact Evaluation.env_userCall pos name args env

/-- A sum of a call, with a `let` in its argument and one in the body of the function, and of a
constant that is a `let`: only the last one leaves its variable behind. -/
theorem evaluate_frame_constant :
    let body : Expr := .letIn .unknown "b" (.access .unknown "a") (.access .unknown "b")
    let constant : Expr :=
      .letIn .unknown "d" (.literal .unknown (.number 1)) (.access .unknown "d")
    let declarations : Declarations :=
      ⟨.empty, .ofList [("f", ⟨.unknown, "f", ["a"], body⟩)], .ofList [("c", constant)]⟩
    let call : Expr := .userCall .unknown "f"
      [.letIn .unknown "e" (.literal .unknown (.number 2)) (.access .unknown "e")]
    let expr : Expr := .binary .unknown .add call (.access .unknown "c")
    let after := (evaluate 9 declarations expr .empty).2
    (∀ name ∈ ["a", "b", "e"], after.contains name = false) ∧
      after.find? "d" ≠ (NameMap.empty : Env).find? "d" ∧
      ∃ node, expr.LeadsTo declarations node ∧ node.Binds "d" := by
  intro body constant declarations call expr after
  have hbound : after.find? "d" ≠ (NameMap.empty : Env).find? "d" := by decide +kernel
  exact ⟨by decide +kernel, hbound, (evaluate_frame 9 declarations expr .empty).2.1 "d" hbound⟩

end Reckoner
