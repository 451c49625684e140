import Reckoner.Proofs.Declarations
import Reckoner.Proofs.Expr.Nodes

/-!
Declarations without their positions. Two declarations are the same up to positions if every name
stands for the same under both of them once the positions are taken away; that they stay so when
the same is declared under both.
-/

set_option autoImplicit false
set_option relaxedAutoImplicit false

namespace Reckoner

theorem unplacedArgs_eq_map (args : List Expr) : unplacedArgs args = args.map Expr.unplaced := by
  induction args with
  | nil => rfl
  | cons arg args ih => rw [unplacedArgs, ih, List.map_cons]

theorem unplacedBindings_eq_map (bindings : List (String × Expr)) :
    unplacedBindings bindings = bindings.map (Prod.map id Expr.unplaced) := by
  induction bindings with
  | nil => rfl
  | cons binding bindings ih =>
    rw [unplacedBindings, ih, List.map_cons]
    rfl

/-- The function with all positions taken away. -/
def FunctionDef.unplaced (function : FunctionDef) : FunctionDef :=
  ⟨.unknown, function.name, function.parameters, function.body.unplaced⟩

namespace Declaration

/-- The declaration with all positions taken away. -/
def unplaced : Declaration → Declaration
  | function definition => function definition.unplaced
  | constant name value => constant name value.unplaced

theorem declaresFunction_unplaced (name : String) (declaration : Declaration) :
    declaration.unplaced.declaresFunction name = declaration.declaresFunction name := by
  cases declaration <;> rfl

theorem function?_unplaced (name : String) (declaration : Declaration) :
    declaration.unplaced.function? name =
      (declaration.function? name).map FunctionDef.unplaced := by
  cases declaration with
  | function definition =>
    by_cases h : definition.name = name <;> simp [unplaced, function?, FunctionDef.unplaced, h]
  | constant key value => rfl

theorem constant?_unplaced (name : String) (declaration : Declaration) :
    declaration.unplaced.constant? name = (declaration.constant? name).map Expr.unplaced := by
  cases declaration with
  | function definition => rfl
  | constant key value => by_cases h : key = name <;> simp [unplaced, constant?, h]

end Declaration

/-- The map with all its values changed. -/
def NameMap.map {α β : Type} (change : α → β) (names : NameMap α) : NameMap β :=
  ⟨names.entries.map (Prod.map id change)⟩

theorem NameMap.find?_map {α β : Type} (change : α → β) (names : NameMap α) (name : String) :
    (names.map change).find? name = (names.find? name).map change := by
  rw [NameMap.find?, NameMap.find?, NameMap.map, List.find?_map, Option.map_map, Option.map_map]
  rfl

namespace Declarations

/-- The declarations with all positions taken away. -/
def unplaced (declarations : Declarations) : Declarations :=
  ⟨declarations.builtins, declarations.functions.map FunctionDef.unplaced,
    declarations.constants.map Expr.unplaced⟩

/-- Whether every name stands for the same under both declarations, up to positions. -/
structure SameUpToPlaces (declarations declarations' : Declarations) : Prop where
  builtins : ∀ name, declarations.builtins.find? name = declarations'.builtins.find? name
  functions : ∀ name, (declarations.functions.find? name).map FunctionDef.unplaced =
    (declarations'.functions.find? name).map FunctionDef.unplaced
  constants : ∀ name, (declarations.constants.find? name).map Expr.unplaced =
    (declarations'.constants.find? name).map Expr.unplaced

namespace SameUpToPlaces

variable {declarations declarations' : Declarations}

theorem refl (declarations : Declarations) : declarations.SameUpToPlaces declarations :=
  ⟨fun _ ↦ rfl, fun _ ↦ rfl, fun _ ↦ rfl⟩

theorem contains_builtins (h : declarations.SameUpToPlaces declarations') (name : String) :
    declarations.builtins.contains name = declarations'.builtins.contains name :=
  congrArg Option.isSome (h.builtins name)

theorem isFunction (h : declarations.SameUpToPlaces declarations') (name : String) :
    declarations.isFunction name = declarations'.isFunction name := by
  have hfunctions := congrArg Option.isSome (h.functions name)
  rw [Option.isSome_map, Option.isSome_map] at hfunctions
  unfold Declarations.isFunction NameMap.contains
  rw [h.builtins, hfunctions]

/-- Declaring the same up to positions leaves the same up to positions. -/
theorem declare (h : declarations.SameUpToPlaces declarations') {declaration declaration' :
    Declaration} (hdeclaration : declaration.unplaced = declaration'.unplaced) :
    (declarations.declare declaration).SameUpToPlaces (declarations'.declare declaration') where
  builtins name := by
    rw [builtins_declare, builtins_declare, h.builtins]
  functions name := by
    have hfunction := congrArg (·.function? name) hdeclaration
    rw [Declaration.function?_unplaced, Declaration.function?_unplaced] at hfunction
    rw [find?_functions_declare, find?_functions_declare, Option.map_or, Option.map_or, hfunction,
      h.functions]
  constants name := by
    have hconstant := congrArg (·.constant? name) hdeclaration
    rw [Declaration.constant?_unplaced, Declaration.constant?_unplaced] at hconstant
    rw [find?_constants_declare, find?_constants_declare, Option.map_or, Option.map_or, hconstant,
      h.constants]

theorem declareAll (h : declarations.SameUpToPlaces declarations') {more more' : List Declaration}
    (hmore : more.map Declaration.unplaced = more'.map Declaration.unplaced) :
    (declarations.declareAll more).SameUpToPlaces (declarations'.declareAll more') := by
  induction more generalizing declarations declarations' more' with
  | nil =>
    rw [List.map_nil, eq_comm, List.map_eq_nil_iff] at hmore
    rw [hmore]
    exact h
  | cons first more ih =>
    cases more' with
    | nil => cases hmore
    | cons first' more' =>
      obtain ⟨hfirst, hrest⟩ := List.cons.inj hmore
      exact ih (h.declare hfirst) hrest

end SameUpToPlaces

end Declarations

end Reckoner
