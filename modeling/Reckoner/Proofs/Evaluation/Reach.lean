import Reckoner.Proofs.Evaluation.Safety

/-!
What an evaluation can depend on. The names that an expression reaches are those in it, with those
in the functions and constants that they stand for, and so on. Two evaluations of an expression,
under different declarations and from different environments, come to the same if functions,
constants, built-in functions and variables are the same for every name that is reached. The
environments that they leave then differ in no name in which they did not differ before.

The proof follows the two evaluations side by side. They take the same steps, so whatever one of
them binds the other one binds as well, and on the names on which both environments agree they go
on agreeing.
-/

set_option autoImplicit false
set_option relaxedAutoImplicit false

namespace Reckoner

namespace Expr

/-- The name that the expression looks up: of a variable or constant, or of the function that it
calls. -/
def lookedUp? : Expr → Option String
  | access _ name => some name
  | userCall _ name _ => some name
  | builtinCall _ name _ => some name
  | _ => none

/-- Whether the name is looked up by a node of the expression. -/
def Mentions (expr : Expr) (name : String) : Prop :=
  ∃ node, NodeOf node expr ∧ node.lookedUp? = some name

/-- The names that an expression reaches: those in it, and those in the bodies of functions and in
the expressions of constants whose names it reaches. -/
inductive Reaches (declarations : Declarations) (expr : Expr) : String → Prop where
  | here {name : String} (hname : expr.Mentions name) : Reaches declarations expr name
  | function {name other : String} {function : FunctionDef} (hname : Reaches declarations expr name)
      (hfunction : declarations.functions.find? name = some function)
      (hother : function.body.Mentions other) : Reaches declarations expr other
  | constant {name other : String} {value : Expr} (hname : Reaches declarations expr name)
      (hvalue : declarations.constants.find? name = some value)
      (hother : value.Mentions other) : Reaches declarations expr other

theorem Mentions.of_child {expr child : Expr} {name : String} (hchild : child ∈ expr.children)
    (h : child.Mentions name) : expr.Mentions name := by
  obtain ⟨node, hnode, hname⟩ := h
  exact ⟨node, .inside hchild hnode, hname⟩

theorem mentions_of_lookedUp {expr : Expr} {name : String} (h : expr.lookedUp? = some name) :
    expr.Mentions name :=
  ⟨expr, .self expr, h⟩

end Expr

/-- Whether the function and the constant that one of the names stands for mention such names
only. -/
structure Declarations.Encloses (declarations : Declarations) (names : String → Prop) : Prop where
  functions : ∀ name function, names name → declarations.functions.find? name = some function →
    ∀ other, function.body.Mentions other → names other
  constants : ∀ name value, names name → declarations.constants.find? name = some value →
    ∀ other, value.Mentions other → names other

theorem Expr.encloses_reaches (declarations : Declarations) (expr : Expr) :
    declarations.Encloses (expr.Reaches declarations) where
  functions _ _ hname hfunction _ hother := .function hname hfunction hother
  constants _ _ hname hvalue _ hother := .constant hname hvalue hother

/-- No set of names with those of the expression is smaller, if what the names stand for mentions
such names only. -/
theorem Expr.Reaches.least {declarations : Declarations} {expr : Expr} {names : String → Prop}
    (hexpr : ∀ name, expr.Mentions name → names name) (hnames : declarations.Encloses names)
    {name : String} (h : expr.Reaches declarations name) : names name := by
  induction h with
  | here hname => exact hexpr _ hname
  | function _ hfunction hother ih => exact hnames.functions _ _ ih hfunction _ hother
  | constant _ hvalue hother ih => exact hnames.constants _ _ ih hvalue _ hother

/-- Whether the name stands for the same function, constant and built-in function under both
declarations. -/
structure Declarations.AgreeAt (declarations declarations' : Declarations) (name : String) :
    Prop where
  functions : declarations.functions.find? name = declarations'.functions.find? name
  constants : declarations.constants.find? name = declarations'.constants.find? name
  builtins : declarations.builtins.find? name = declarations'.builtins.find? name

/-- Whether the given names have the same values in both environments, or none in both. -/
def Env.AgreeOn (names : String → Prop) (env env' : Env) : Prop :=
  ∀ name, names name → env.find? name = env'.find? name

/-- Binding a variable to one value in both environments leaves no new difference. -/
theorem Env.AgreeOn.insert {names : String → Prop} {env env' : Env} (h : env.AgreeOn names env')
    (name : String) (value : Value) :
    Env.AgreeOn names (env.insert name value) (env'.insert name value) := by
  intro other hother
  rw [NameMap.find?_insert, NameMap.find?_insert]
  split
  · rfl
  · exact h other hother

namespace Evaluation

variable {α β : Type} {names : String → Prop}

/-- From environments that agree on the names both evaluations come to the same, and they leave
environments that agree on the names. -/
def Alike (names : String → Prop) (evaluation evaluation' : Evaluation α) : Prop :=
  ∀ env env' : Env, env.AgreeOn names env' →
    (evaluation.run.run env).1 = (evaluation'.run.run env').1 ∧
      Env.AgreeOn names (evaluation.run.run env).2 (evaluation'.run.run env').2

/-- An evaluation that comes to the same everywhere and binds nothing. -/
theorem alike_of_const {evaluation : Evaluation α} {outcome : Except (Fault EvalError) α}
    (h : ∀ env, evaluation.run.run env = (outcome, env)) : Alike names evaluation evaluation := by
  intro env env' henv
  rw [h env, h env']
  exact ⟨rfl, henv⟩

theorem alike_pure (value : α) : Alike names (pure value : Evaluation α) (pure value) :=
  alike_of_const fun _ ↦ rfl

theorem alike_fail (cause : EvalError.Cause) (pos : Pos) :
    Alike names (fail cause pos : Evaluation α) (fail cause pos) :=
  alike_of_const fun _ ↦ rfl

theorem alike_bindVariable (name : String) (value : Value) :
    Alike names (bindVariable name value) (bindVariable name value) :=
  fun _ _ henv ↦ ⟨rfl, henv.insert name value⟩

theorem Alike.bind {evaluation evaluation' : Evaluation α} {next next' : α → Evaluation β}
    (h : Alike names evaluation evaluation')
    (hnext : ∀ value, Alike names (next value) (next' value)) :
    Alike names (evaluation >>= next) (evaluation' >>= next') := by
  intro env env' henv
  obtain ⟨hresult, hafter⟩ := h env env' henv
  rcases hrun : evaluation.run.run env with ⟨outcome, here⟩
  rcases hrun' : evaluation'.run.run env' with ⟨outcome', here'⟩
  rw [hrun, hrun'] at hresult hafter
  obtain rfl : outcome = outcome' := hresult
  cases outcome with
  | error fault =>
    rw [run_bind_of_error hrun, run_bind_of_error hrun']
    exact ⟨rfl, hafter⟩
  | ok value =>
    rw [run_bind_of_ok hrun, run_bind_of_ok hrun']
    exact hnext value here here' hafter

/-- Both evaluations put their own environment back. -/
theorem Alike.restoring {evaluation evaluation' : Evaluation α}
    (h : Alike names evaluation evaluation') :
    Alike names (restoring evaluation) (restoring evaluation') :=
  fun env env' henv ↦ ⟨(h env env' henv).1, henv⟩

section Expressions

variable {evaluate evaluate' : Expr → Evaluation Value} {declarations declarations' : Declarations}

theorem alike_bindAll {bindings : List (String × Expr)}
    (h : ∀ binding ∈ bindings, Alike names (evaluate binding.2) (evaluate' binding.2)) :
    Alike names (bindAll evaluate bindings) (bindAll evaluate' bindings) := by
  induction bindings with
  | nil => exact alike_pure ()
  | cons binding bindings ih =>
    obtain ⟨hfirst, hmore⟩ := List.forall_mem_cons.mp h
    exact hfirst.bind fun value ↦ (alike_bindVariable binding.1 value).bind fun _ ↦ ih hmore

theorem alike_numbers (function : String) (pos : Pos) {args : List Expr}
    (h : ∀ arg ∈ args, Alike names (evaluate arg) (evaluate' arg)) :
    Alike names (numbers evaluate function pos args) (numbers evaluate' function pos args) := by
  induction args with
  | nil => exact alike_pure []
  | cons arg args ih =>
    obtain ⟨hfirst, hmore⟩ := List.forall_mem_cons.mp h
    refine hfirst.bind fun value ↦ ?_
    cases value with
    | number x => exact (ih hmore).bind fun _ ↦ alike_pure _
    | none => exact alike_fail _ pos
    | boolean b => exact alike_fail _ pos
    | text content => exact alike_fail _ pos

theorem alike_access {name : String} (pos : Pos) (hname : names name)
    (hagree : declarations.AgreeAt declarations' name)
    (h : ∀ value, declarations.constants.find? name = some value →
      Alike names (evaluate value) (evaluate' value)) :
    Alike names (access evaluate declarations pos name)
      (access evaluate' declarations' pos name) := by
  have hget (env : Env) : (get : Evaluation Env).run.run env = (.ok env, env) := rfl
  intro env env' henv
  rw [access, access, run_bind_of_ok (hget env), run_bind_of_ok (hget env'), ← henv name hname,
    ← hagree.constants]
  split
  · exact alike_pure _ env env' henv
  · split
    · next value hvalue => exact h value hvalue env env' henv
    · exact alike_fail _ pos env env' henv

theorem alike_userCall {name : String} {args : List Expr} (pos : Pos)
    (hagree : declarations.AgreeAt declarations' name)
    (hargs : ∀ arg ∈ args, Alike names (evaluate arg) (evaluate' arg))
    (hbody : ∀ function, declarations.functions.find? name = some function →
      Alike names (evaluate function.body) (evaluate' function.body)) :
    Alike names (userCall evaluate declarations pos name args)
      (userCall evaluate' declarations' pos name args) := by
  rw [userCall, userCall, ← hagree.functions]
  split
  · exact alike_fail _ pos
  · next function hfunction =>
    split
    · exact alike_fail _ pos
    · refine Alike.restoring ((alike_bindAll fun binding hbinding ↦ ?_).bind fun _ ↦
        hbody function hfunction)
      exact hargs binding.2 (List.of_mem_zip hbinding).2

theorem alike_builtinCall {name : String} {args : List Expr} (pos : Pos)
    (hagree : declarations.AgreeAt declarations' name)
    (hargs : ∀ arg ∈ args, Alike names (evaluate arg) (evaluate' arg)) :
    Alike names (builtinCall evaluate declarations pos name args)
      (builtinCall evaluate' declarations' pos name args) := by
  rw [builtinCall, builtinCall, ← hagree.builtins]
  split
  · exact alike_fail _ pos
  · split
    · refine (alike_numbers name pos hargs).bind fun xs ↦ ?_
      split
      · exact alike_pure _
      · exact alike_fail _ pos
    · exact alike_fail _ pos

/-- Evaluations under two declarations go side by side where they agree on all names that can be
looked up: these are names on which the environments agree, and they are closed under going to the
functions and constants that they stand for. -/
theorem alike_expression {reached : String → Prop} (hnames : ∀ name, reached name → names name)
    (hagree : ∀ name, reached name → declarations.AgreeAt declarations' name)
    (hreached : declarations.Encloses reached) (depth : Nat) {expr : Expr}
    (hexpr : ∀ name, expr.Mentions name → reached name) :
    Alike names (expression declarations depth expr) (expression declarations' depth expr) := by
  induction depth generalizing expr with
  | zero => exact alike_of_const fun _ ↦ rfl
  | succ depth ih =>
    have hchild {child : Expr} (hmem : child ∈ expr.children) :
        Alike names (expression declarations depth child) (expression declarations' depth child) :=
      ih fun name hname ↦ hexpr name (hname.of_child hmem)
    cases expr with
    | literal pos value => exact alike_pure value
    | access pos name =>
      have hname := hexpr name (Expr.mentions_of_lookedUp rfl)
      exact alike_access pos (hnames name hname) (hagree name hname) fun value hvalue ↦
        ih (hreached.constants name value hname hvalue)
    | binary pos op left right =>
      refine (hchild List.mem_cons_self).bind fun leftValue ↦ ?_
      refine (hchild (List.mem_cons_of_mem _ List.mem_cons_self)).bind fun rightValue ↦ ?_
      split
      · exact alike_pure _
      · exact alike_fail _ pos
    | ifThenElse pos condition thenBranch elseBranch =>
      have hthen : thenBranch ∈ [condition, thenBranch, elseBranch] := by simp
      have helse : elseBranch ∈ [condition, thenBranch, elseBranch] := by simp
      refine (hchild List.mem_cons_self).bind fun value ↦ ?_
      cases value with
      | boolean b =>
        cases b with
        | true => exact hchild hthen
        | false => exact hchild helse
      | none => exact alike_fail _ pos
      | text content => exact alike_fail _ pos
      | number x => exact alike_fail _ pos
    | letIn pos name value body =>
      refine (alike_bindAll (List.forall_mem_singleton.mpr (hchild List.mem_cons_self))).bind
        fun _ ↦ hchild (List.mem_cons_of_mem _ List.mem_cons_self)
    | letGroup pos bindings body =>
      refine (alike_bindAll fun binding hbinding ↦ ?_).bind fun _ ↦
        hchild (List.mem_append_right _ List.mem_cons_self)
      exact hchild (List.mem_append_left _ (List.mem_map_of_mem hbinding))
    | userCall pos name args =>
      have hname := hexpr name (Expr.mentions_of_lookedUp rfl)
      exact alike_userCall pos (hagree name hname) (fun arg harg ↦ hchild harg)
        fun function hfunction ↦ ih (hreached.functions name function hname hfunction)
    | builtinCall pos name args =>
      have hname := hexpr name (Expr.mentions_of_lookedUp rfl)
      exact alike_builtinCall pos (hagree name hname) fun arg harg ↦ hchild harg
    | function pos name parameters body => exact alike_pure _
    | endMarker pos => exact alike_pure _

end Expressions

end Evaluation

/-- An evaluation depends on nothing but the names that its expression reaches. Where two
declarations and two environments agree on all of them, both evaluations have the same result, and
the environments afterwards agree on every name on which they agreed before. -/
theorem evaluate_eq_of_reaches (limit : Nat) (declarations declarations' : Declarations)
    (expr : Expr) (env env' : Env)
    (hdeclarations : ∀ name, expr.Reaches declarations name →
      declarations.AgreeAt declarations' name)
    (henv : env.AgreeOn (expr.Reaches declarations) env') :
    let outcome := evaluate limit declarations expr env
    let outcome' := evaluate limit declarations' expr env'
    outcome.1 = outcome'.1 ∧ ∀ name, env.find? name = env'.find? name →
      outcome.2.find? name = outcome'.2.find? name :=
  Evaluation.alike_expression henv hdeclarations (expr.encloses_reaches declarations) limit
    (fun _ ↦ .here) env env' fun _ hname ↦ hname

/-- A call whose argument is a variable and whose function reads a constant: neither a function and
a constant that are there on one side only nor another variable makes a difference. -/
theorem evaluate_eq_of_reaches_call :
    let function : FunctionDef :=
      ⟨.unknown, "f", ["a"], .binary .unknown .add (.access .unknown "a") (.access .unknown "c")⟩
    let constant : Expr :=
      .letIn .unknown "b" (.literal .unknown (.number 1)) (.access .unknown "b")
    let other : FunctionDef := ⟨.unknown, "g", [], .access .unknown "y"⟩
    let declarations : Declarations :=
      ⟨.empty, .ofList [("f", function)], .ofList [("c", constant)]⟩
    let declarations' : Declarations :=
      ⟨.empty, .ofList [("g", other), ("f", function)], .ofList [("d", constant), ("c", constant)]⟩
    let env : Env := .ofList [("x", .number 2), ("y", .number 3)]
    let env' : Env := .ofList [("x", .number 2)]
    let expr : Expr := .userCall .unknown "f" [.access .unknown "x"]
    (∀ name, expr.Reaches declarations name → declarations.AgreeAt declarations' name) ∧
      env.AgreeOn (expr.Reaches declarations) env' ∧
      (evaluate 9 declarations' expr env').1.toOption = some (.number 3) := by
  intro function constant other declarations declarations' env env' expr
  let names : List String := ["f", "x", "a", "c", "b"]
  have hmentions {expr : Expr}
      (h : expr.Everywhere fun node ↦ ∀ name ∈ node.lookedUp?, name ∈ names) (name : String)
      (hname : expr.Mentions name) : name ∈ names := by
    obtain ⟨node, hnode, hlookedUp⟩ := hname
    exact h node hnode name hlookedUp
  have henclosed : declarations.Encloses (· ∈ names) := by
    constructor
    · intro name found _ hfound
      obtain ⟨-, rfl⟩ : "f" = name ∧ function = found := by
        simpa [declarations, NameMap.find?, NameMap.ofList, NameMap.insert, NameMap.insertEntry,
          NameMap.empty] using hfound
      exact hmentions (by decide)
    · intro name found _ hfound
      obtain ⟨-, rfl⟩ : "c" = name ∧ constant = found := by
        simpa [declarations, NameMap.find?, NameMap.ofList, NameMap.insert, NameMap.insertEntry,
          NameMap.empty] using hfound
      exact hmentions (by decide)
  have hcases (name : String) (h : expr.Reaches declarations name) :
      name = "f" ∨ name = "x" ∨ name = "a" ∨ name = "c" ∨ name = "b" := by
    simpa [names] using h.least (hmentions (by decide)) henclosed
  have hdeclarations (name : String) (h : expr.Reaches declarations name) :
      declarations.AgreeAt declarations' name := by
    rcases hcases name h with rfl | rfl | rfl | rfl | rfl <;> exact ⟨rfl, rfl, rfl⟩
  have henv : env.AgreeOn (expr.Reaches declarations) env' := by
    intro name h
    rcases hcases name h with rfl | rfl | rfl | rfl | rfl <;> rfl
  refine ⟨hdeclarations, henv, ?_⟩
  rw [← (evaluate_eq_of_reaches 9 declarations declarations' expr env env' hdeclarations henv).1]
  decide +kernel

end Reckoner
