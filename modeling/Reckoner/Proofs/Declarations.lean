import Reckoner.Declarations

/-!
What a row of declarations does to the ones in force: of every name the last declaration
counts, names that are not declared keep what they had, and the table of built-in functions
stays as it is.
-/

set_option autoImplicit false
set_option relaxedAutoImplicit false

namespace Reckoner

namespace Declaration

/-- The function that the declaration declares under the name. -/
def function? (name : String) : Declaration → Option FunctionDef
  | function definition => if definition.name = name then some definition else none
  | constant _ _ => none

/-- The value of the constant that the declaration declares under the name. -/
def constant? (name : String) : Declaration → Option Expr
  | function _ => none
  | constant key value => if key = name then some value else none

theorem isSome_function? (name : String) (declaration : Declaration) :
    (declaration.function? name).isSome = declaration.declaresFunction name := by
  cases declaration with
  | function definition =>
    by_cases h : definition.name = name <;> simp [function?, declaresFunction, h]
  | constant key value => rfl

theorem function?_eq_some {name : String} {declaration : Declaration} {definition : FunctionDef}
    (h : declaration.function? name = some definition) :
    declaration = .function definition ∧ definition.name = name := by
  cases declaration with
  | function found =>
    by_cases hname : found.name = name
    · rw [function?, if_pos hname] at h
      cases h
      exact ⟨rfl, hname⟩
    · rw [function?, if_neg hname] at h
      cases h
  | constant key value => cases h

theorem constant?_eq_some {name : String} {declaration : Declaration} {value : Expr}
    (h : declaration.constant? name = some value) : declaration = .constant name value := by
  cases declaration with
  | function definition => cases h
  | constant key found =>
    by_cases hname : key = name
    · rw [constant?, if_pos hname] at h
      cases h
      rw [hname]
    · rw [constant?, if_neg hname] at h
      cases h

end Declaration

namespace Declarations

/-- The declarations after a row of further ones, name by name. -/
structure UpdatedBy (before : Declarations) (more : List Declaration) (after : Declarations) :
    Prop where
  builtins : after.builtins = before.builtins
  functions : ∀ name, after.functions.find? name =
    (more.filterMap (·.function? name)).getLast?.or (before.functions.find? name)
  constants : ∀ name, after.constants.find? name =
    (more.filterMap (·.constant? name)).getLast?.or (before.constants.find? name)

theorem builtins_declare (declarations : Declarations) (declaration : Declaration) :
    (declarations.declare declaration).builtins = declarations.builtins := by
  cases declaration <;> rfl

theorem find?_functions_declare (declarations : Declarations) (declaration : Declaration)
    (name : String) : (declarations.declare declaration).functions.find? name =
      (declaration.function? name).or (declarations.functions.find? name) := by
  cases declaration with
  | constant key value => rfl
  | function definition =>
    rw [declare, NameMap.find?_insert, Declaration.function?]
    split <;> rfl

theorem find?_constants_declare (declarations : Declarations) (declaration : Declaration)
    (name : String) : (declarations.declare declaration).constants.find? name =
      (declaration.constant? name).or (declarations.constants.find? name) := by
  cases declaration with
  | function definition => rfl
  | constant key value =>
    rw [declare, NameMap.find?_insert, Declaration.constant?]
    split <;> rfl

/-- Of what the declarations say about a name, the last one counts. -/
theorem getLast?_filterMap_cons {α β : Type} (found : α → Option β) (first : α) (more : List α)
    (before : Option β) : ((first :: more).filterMap found).getLast?.or before =
      (more.filterMap found).getLast?.or ((found first).or before) := by
  cases hfirst : found first with
  | none => rw [List.filterMap_cons_none hfirst, Option.none_or]
  | some value =>
    rw [List.filterMap_cons_some hfirst, List.getLast?_cons]
    cases (more.filterMap found).getLast? <;> rfl

theorem updatedBy_declareAll (declarations : Declarations) (more : List Declaration) :
    declarations.UpdatedBy more (declarations.declareAll more) := by
  induction more generalizing declarations with
  | nil => exact ⟨rfl, fun _ ↦ rfl, fun _ ↦ rfl⟩
  | cons first more ih =>
    obtain ⟨hbuiltins, hfunctions, hconstants⟩ := ih (declarations.declare first)
    refine ⟨hbuiltins.trans (builtins_declare _ _), fun name ↦ ?_, fun name ↦ ?_⟩
    · rw [getLast?_filterMap_cons, ← find?_functions_declare]
      exact hfunctions name
    · rw [getLast?_filterMap_cons, ← find?_constants_declare]
      exact hconstants name

/-- What the last declaration of a row says about a name is said by one of them. -/
theorem exists_of_getLast?_or {α β : Type} {found : α → Option β} {more : List α}
    {before : Option β} {value : β}
    (h : (more.filterMap found).getLast?.or before = some value) :
    (∃ item ∈ more, found item = some value) ∨ before = some value := by
  rcases Option.or_eq_some_iff.mp h with hlast | ⟨-, hbefore⟩
  · exact .inl (List.mem_filterMap.mp (List.mem_of_getLast? hlast))
  · exact .inr hbefore

namespace UpdatedBy

variable {before after : Declarations} {more : List Declaration} {name : String}

/-- A function in force afterwards is one of those declared or was in force before. -/
theorem function_cases (h : before.UpdatedBy more after) {definition : FunctionDef}
    (hfind : after.functions.find? name = some definition) :
    (.function definition ∈ more ∧ definition.name = name) ∨
      before.functions.find? name = some definition := by
  rw [h.functions] at hfind
  rcases exists_of_getLast?_or hfind with ⟨declaration, hmem, hfunction⟩ | hbefore
  · obtain ⟨rfl, hname⟩ := Declaration.function?_eq_some hfunction
    exact .inl ⟨hmem, hname⟩
  · exact .inr hbefore

theorem constant_cases (h : before.UpdatedBy more after) {value : Expr}
    (hfind : after.constants.find? name = some value) :
    .constant name value ∈ more ∨ before.constants.find? name = some value := by
  rw [h.constants] at hfind
  rcases exists_of_getLast?_or hfind with ⟨declaration, hmem, hconstant⟩ | hbefore
  · exact .inl (Declaration.constant?_eq_some hconstant ▸ hmem)
  · exact .inr hbefore

/-- A function that is not declared again is kept. -/
theorem function_kept (h : before.UpdatedBy more after) {definition : FunctionDef}
    (hfind : before.functions.find? name = some definition)
    (hfresh : ∀ declaration ∈ more, declaration.declaresFunction name = false) :
    after.functions.find? name = some definition := by
  have hnone : more.filterMap (·.function? name) = [] := by
    rw [List.filterMap_eq_nil_iff]
    intro declaration hmem
    rw [← Option.not_isSome_iff_eq_none, Declaration.isSome_function?, hfresh declaration hmem]
    decide
  rw [h.functions, hnone]
  exact hfind

theorem contains_functions (h : before.UpdatedBy more after)
    (hname : before.functions.contains name = true ∨
      ∃ declaration ∈ more, declaration.declaresFunction name = true) :
    after.functions.contains name = true := by
  rw [NameMap.contains, h.functions, Option.isSome_or, Bool.or_eq_true]
  rcases hname with hbefore | ⟨declaration, hmem, hdeclares⟩
  · exact .inr hbefore
  · rw [← Declaration.isSome_function?] at hdeclares
    obtain ⟨definition, hfunction⟩ := Option.isSome_iff_exists.mp hdeclares
    rw [List.getLast?_isSome]
    exact .inl (List.ne_nil_of_mem (List.mem_filterMap.mpr ⟨declaration, hmem, hfunction⟩))

theorem contains_constants (h : before.UpdatedBy more after)
    (hname : before.constants.contains name = true) : after.constants.contains name = true := by
  rw [NameMap.contains, h.constants, Option.isSome_or, Bool.or_eq_true]
  exact .inr hname

end UpdatedBy

end Declarations

end Reckoner
