import Mathlib.Data.Finset.Card
import Mathlib.Data.List.Induction
import Mathlib.Tactic.Tauto
import Reckoner.Proofs.Declarations

/-!
How many functions a row of declarations adds. Names that are free to begin with are counted
once each, however often they are declared.
-/

set_option autoImplicit false
set_option relaxedAutoImplicit false

namespace Reckoner

namespace Declaration

/-- The name of the function that is declared, if it is one. -/
def functionName? : Declaration → Option String
  | function definition => some definition.name
  | constant _ _ => none

theorem functionName?_eq_some {name : String} {declaration : Declaration} :
    declaration.functionName? = some name ↔ declaration.declaresFunction name = true := by
  cases declaration with
  | function definition => simp [functionName?, declaresFunction]
  | constant key value => simp [functionName?, declaresFunction]

/-- The names of the functions that are declared, in the order of their declarations. -/
def functionNames (declarations : List Declaration) : List String :=
  declarations.filterMap functionName?

@[simp] theorem functionNames_nil : functionNames [] = [] := rfl

@[simp] theorem functionNames_append (first more : List Declaration) :
    functionNames (first ++ more) = functionNames first ++ functionNames more :=
  List.filterMap_append

@[simp] theorem functionNames_function (definition : FunctionDef) :
    functionNames [function definition] = [definition.name] := rfl

@[simp] theorem functionNames_constant (name : String) (value : Expr) :
    functionNames [constant name value] = [] := rfl

theorem mem_functionNames {name : String} {declarations : List Declaration} :
    name ∈ functionNames declarations ↔
      ∃ declaration ∈ declarations, declaration.declaresFunction name = true := by
  simp [functionNames, functionName?_eq_some]

end Declaration

namespace NameMap

variable {α : Type}

theorem contains_insert (map : NameMap α) (name other : String) (value : α) :
    (map.insert name value).contains other = true ↔ name = other ∨ map.contains other = true := by
  rw [contains, find?_insert]
  by_cases h : name = other <;> simp [h, contains]

/-- An entry is added unless the name has one. -/
theorem length_insert (map : NameMap α) (name : String) (value : α) :
    (map.insert name value).entries.length =
      if map.contains name = true then map.entries.length else map.entries.length + 1 := by
  obtain ⟨entries⟩ := map
  simp only [insert, contains, find?]
  induction entries with
  | nil => simp [insertEntry]
  | cons entry rest ih =>
    obtain ⟨key, old⟩ := entry
    by_cases h : key = name
    · simp [insertEntry, h]
    · simp only [insertEntry, h, if_false, List.length_cons, ih, List.find?_cons, decide_false]
      exact (apply_ite (· + 1) _ _ _)

end NameMap

namespace Declarations

open Declaration

theorem declareAll_concat (declarations : Declarations) (more : List Declaration)
    (last : Declaration) :
    declarations.declareAll (more ++ [last]) = (declarations.declareAll more).declare last :=
  List.foldl_append

theorem contains_functions_declareAll (declarations : Declarations) (more : List Declaration)
    (name : String) : (declarations.declareAll more).functions.contains name = true ↔
      name ∈ functionNames more ∨ declarations.functions.contains name = true := by
  induction more using List.reverseRecOn with
  | nil => simp [declareAll]
  | append_singleton more last ih =>
    rw [declareAll_concat]
    cases last with
    | function definition =>
      rw [declare, NameMap.contains_insert, ih, functionNames_append, functionNames_function,
        List.mem_append, List.mem_singleton]
      tauto
    | constant key value => rw [declare, ih, functionNames_append, functionNames_constant,
        List.append_nil]

/-- Free names are added, each of them once. -/
theorem length_functions_declareAll (declarations : Declarations) (more : List Declaration)
    (hfree : ∀ name ∈ functionNames more, declarations.functions.contains name = false) :
    (declarations.declareAll more).functions.entries.length =
      declarations.functions.entries.length + (functionNames more).toFinset.card := by
  induction more using List.reverseRecOn with
  | nil => rfl
  | append_singleton more last ih =>
    rw [functionNames_append] at hfree ⊢
    obtain ⟨hmore, hlast⟩ := List.forall_mem_append.mp hfree
    rw [declareAll_concat]
    cases last with
    | constant key value =>
      rw [functionNames_constant, List.append_nil]
      exact ih hmore
    | function definition =>
      have hcontains := contains_functions_declareAll declarations more definition.name
      have hnames : (functionNames more ++ [definition.name]).toFinset =
          insert definition.name (functionNames more).toFinset := by
        ext name
        simp
      rw [hlast definition.name List.mem_cons_self] at hcontains
      simp only [Bool.false_eq_true, or_false] at hcontains
      rw [functionNames_function, hnames, declare, NameMap.length_insert, ih hmore]
      by_cases hname : definition.name ∈ functionNames more
      · rw [if_pos (hcontains.mpr hname), Finset.card_insert_of_mem (List.mem_toFinset.mpr hname)]
      · rw [if_neg (mt hcontains.mp hname),
          Finset.card_insert_of_notMem (mt List.mem_toFinset.mp hname), Nat.add_assoc]

end Declarations

end Reckoner
