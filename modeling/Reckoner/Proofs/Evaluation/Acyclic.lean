import Reckoner.Proofs.Evaluation.Faults
import Reckoner.Proofs.Expr.Nodes
import Mathlib.Logic.Relation

/-!
Evaluations that cannot run away. Functions and constants refer to each other by the calls and
names in them. Where none of those that are followed from an expression leads back to itself, its
evaluation never comes to the limit on nesting once that is as large as the expression and all
that is declared taken together, whatever the variables stand for.

The measure goes down from one visit to the next: the nodes of the expression, and those of all
that can still be entered from it. A part of an expression has fewer nodes than the whole. A
function or constant that is entered gives up its own nodes, because without a cycle it is not met
again inside.
-/

set_option autoImplicit false
set_option relaxedAutoImplicit false

namespace Reckoner

/-! The graph of references. -/

namespace Expr

/-- All that the nodes of the expression refer to. -/
def references (expr : Expr) : List Reference :=
  expr.nodes.filterMap reference?

theorem length_nodes_pos (expr : Expr) : 0 < expr.nodes.length := by
  rw [nodes_eq]
  exact Nat.succ_pos _

theorem nodes_sublist_of_child {child expr : Expr} (h : child ∈ expr.children) :
    child.nodes.Sublist (expr.children.flatMap nodes) :=
  List.sublist_flatten_of_mem (List.mem_map_of_mem h)

theorem length_nodes_lt_of_child {child expr : Expr} (h : child ∈ expr.children) :
    child.nodes.length < expr.nodes.length := by
  rw [nodes_eq expr, List.length_cons]
  exact Nat.lt_succ_of_le (nodes_sublist_of_child h).length_le

theorem references_subset_of_child {child expr : Expr} (h : child ∈ expr.children) :
    child.references ⊆ expr.references := by
  refine List.filterMap_subset _ fun node hnode ↦ ?_
  rw [nodes_eq expr]
  exact List.mem_cons_of_mem _ ((nodes_sublist_of_child h).subset hnode)

theorem mem_references_of_reference? {expr : Expr} {reference : Reference}
    (h : expr.reference? = some reference) : reference ∈ expr.references :=
  List.mem_filterMap.mpr ⟨expr, by rw [nodes_eq]; exact List.mem_cons_self, h⟩

end Expr

namespace Declarations

/-- The edges of the graph: what the first reference stands for refers to the second one. -/
def Refers (declarations : Declarations) (reference next : Reference) : Prop :=
  ∃ definition, declarations.definition? reference = some definition ∧
    next ∈ definition.references

/-- All references that stand for something. -/
def references (declarations : Declarations) : List Reference :=
  declarations.functions.entries.map (fun entry ↦ .function entry.1) ++
    declarations.constants.entries.map fun entry ↦ .constant entry.1

/-- The nodes of what the reference stands for. -/
def nodesAt (declarations : Declarations) (reference : Reference) : List Expr :=
  (declarations.definition? reference).elim [] Expr.nodes

/-- How many nodes there are in the expression and in all that is declared. -/
def nestingBound (declarations : Declarations) (expr : Expr) : Nat :=
  (expr.nodes ++ declarations.references.flatMap declarations.nodesAt).length

end Declarations

/-- Whether the expression refers to the reference, or to one from which there is a way to it. -/
def Expr.Follows (expr : Expr) (declarations : Declarations) (reference : Reference) : Prop :=
  ∃ first ∈ expr.references, Relation.ReflTransGen declarations.Refers first reference

/-- Whether no reference that is followed from the expression leads back to itself. -/
def Expr.Acyclic (expr : Expr) (declarations : Declarations) : Prop :=
  ∀ reference, expr.Follows declarations reference →
    ¬ Relation.TransGen declarations.Refers reference reference

section Graph

variable {declarations : Declarations} {expr inner : Expr} {reference next : Reference}

theorem Expr.Follows.of_child (hchild : inner ∈ expr.children)
    (h : inner.Follows declarations reference) : expr.Follows declarations reference := by
  obtain ⟨first, hfirst, hway⟩ := h
  exact ⟨first, references_subset_of_child hchild hfirst, hway⟩

/-- A way from what a reference stands for is a way from the reference. -/
theorem Expr.Follows.transGen (hdefinition : declarations.definition? reference = some inner)
    (h : inner.Follows declarations next) :
    Relation.TransGen declarations.Refers reference next := by
  obtain ⟨first, hfirst, hway⟩ := h
  exact .head' ⟨inner, hdefinition, hfirst⟩ hway

theorem Expr.Follows.of_definition (hreference : expr.reference? = some reference)
    (hdefinition : declarations.definition? reference = some inner)
    (h : inner.Follows declarations next) : expr.Follows declarations next :=
  ⟨reference, mem_references_of_reference? hreference, (h.transGen hdefinition).to_reflTransGen⟩

theorem Declarations.mem_references_of_definition
    (h : declarations.definition? reference = some inner) :
    reference ∈ declarations.references := by
  have hmem {α : Type} {map : NameMap α} {name : String} {value : α}
      (hfind : map.find? name = some value) : ∃ entry ∈ map.entries, entry.1 = name := by
    obtain ⟨entry, hentry, -⟩ := Option.map_eq_some_iff.mp hfind
    exact ⟨entry, List.mem_of_find?_eq_some hentry, by simpa using List.find?_some hentry⟩
  cases reference with
  | function name =>
    obtain ⟨definition, hfind, -⟩ := Option.map_eq_some_iff.mp h
    obtain ⟨entry, hentry, rfl⟩ := hmem hfind
    exact List.mem_append_left _ (List.mem_map_of_mem hentry)
  | constant name =>
    obtain ⟨entry, hentry, rfl⟩ := hmem h
    exact List.mem_append_right _ (List.mem_map_of_mem hentry)

/-- There is no cycle if every reference goes down in some rank. -/
theorem Expr.acyclic_of_rank (rank : Reference → Nat)
    (h : ∀ reference ∈ declarations.references,
      ∀ next ∈ (declarations.definition? reference).elim [] Expr.references,
        rank next < rank reference) (expr : Expr) :
    expr.Acyclic declarations := by
  have hedge {reference next : Reference} :
      declarations.Refers reference next → rank next < rank reference := by
    rintro ⟨definition, hdefinition, hnext⟩
    refine h reference (Declarations.mem_references_of_definition hdefinition) next ?_
    rw [hdefinition]
    exact hnext
  have hway {reference next : Reference}
      (hway : Relation.TransGen declarations.Refers reference next) :
      rank next < rank reference := by
    induction hway with
    | single hnext => exact hedge hnext
    | tail _ hnext ih => exact Nat.lt_trans (hedge hnext) ih
  exact fun reference _ hcycle ↦ Nat.lt_irrefl _ (hway hcycle)

end Graph

/-! The measure along the way of an evaluation. -/

/-- What is left to a visit: references with all those among them that stand for something and are
followed from its expression, and enough nesting for the expression and all of them. -/
structure Visit.Affords (declarations : Declarations) (visit : Visit)
    (references : List Reference) : Prop where
  acyclic : visit.expr.Acyclic declarations
  follows : ∀ reference, visit.expr.Follows declarations reference →
    (declarations.definition? reference).isSome = true → reference ∈ references
  depth : (visit.expr.nodes ++ references.flatMap declarations.nodesAt).length ≤ visit.depth

namespace Visit

variable {declarations : Declarations}

theorem Affords.depth_ne_zero {visit : Visit} {references : List Reference}
    (h : visit.Affords declarations references) : visit.depth ≠ 0 := by
  have hnodes := visit.expr.length_nodes_pos
  have hdepth := h.depth
  rw [List.length_append] at hdepth
  omega

/-- One step of the way: a part of the expression keeps all references, and what a reference
stands for gives up that reference. -/
theorem Affords.step {depth : Nat} {expr inner : Expr} {env here : Env}
    {references : List Reference}
    (h : Affords declarations ⟨depth + 1, expr, env⟩ references)
    (hasks : Evaluation.Asks (Evaluation.expression declarations depth) declarations env expr
      inner here) :
    ∃ left, Affords declarations ⟨depth, inner, here⟩ left := by
  have hdepth := h.depth
  rw [List.length_append] at hdepth
  dsimp only at hdepth
  rcases hasks.child_or_definition with hchild | ⟨reference, hreference, hdefinition⟩
  · have hnodes := Expr.length_nodes_lt_of_child hchild
    refine ⟨references, fun next hnext ↦ h.acyclic next (hnext.of_child hchild),
      fun next hnext ↦ h.follows next (hnext.of_child hchild), ?_⟩
    rw [List.length_append]
    dsimp only
    omega
  · have hfollows : expr.Follows declarations reference :=
      ⟨reference, Expr.mem_references_of_reference? hreference, .refl⟩
    have hmem : reference ∈ references := h.follows reference hfollows (by rw [hdefinition]; rfl)
    refine ⟨references.erase reference,
      fun next hnext ↦ h.acyclic next (hnext.of_definition hreference hdefinition),
      fun next hnext hsome ↦ ?_, ?_⟩
    · -- A way back to the reference that has just been entered would be a cycle.
      have hne : next ≠ reference := by
        rintro rfl
        exact h.acyclic next hfollows (hnext.transGen hdefinition)
      exact (List.mem_erase_of_ne hne).mpr
        (h.follows next (hnext.of_definition hreference hdefinition) hsome)
    · have hnodesAt : declarations.nodesAt reference = inner.nodes := by
        rw [Declarations.nodesAt, hdefinition]
        rfl
      have hnodes := expr.length_nodes_pos
      have hleft := ((List.perm_cons_erase hmem).flatMap_right declarations.nodesAt).length_eq
      rw [List.flatMap_cons, hnodesAt] at hleft
      dsimp only
      omega

/-- The whole way: every visit affords what can be followed from its expression. -/
theorem During.affords {first visit : Visit} {references : List Reference}
    (hfirst : first.Affords declarations references) (h : During declarations first visit) :
    ∃ left, visit.Affords declarations left := by
  induction h with
  | first => exact ⟨references, hfirst⟩
  | inside _ hasks ih =>
    obtain ⟨left, hleft⟩ := ih
    exact hleft.step hasks

theorem affords_of_nestingBound {expr : Expr} (hacyclic : expr.Acyclic declarations) {limit : Nat}
    (hlimit : declarations.nestingBound expr ≤ limit) (env : Env) :
    Affords declarations ⟨limit, expr, env⟩ declarations.references where
  acyclic := hacyclic
  follows reference _ hsome := by
    obtain ⟨definition, hdefinition⟩ := Option.isSome_iff_exists.mp hsome
    exact Declarations.mem_references_of_definition hdefinition
  depth := hlimit

end Visit

/-- From the bound on, the limit on nesting makes no difference to the evaluation. -/
theorem evaluate_eq_of_acyclic {declarations : Declarations} {expr : Expr}
    (hacyclic : expr.Acyclic declarations) {limit : Nat}
    (hlimit : declarations.nestingBound expr ≤ limit) (env : Env) :
    evaluate limit declarations expr env =
      evaluate (declarations.nestingBound expr) declarations expr env := by
  obtain ⟨more, rfl⟩ := Nat.exists_eq_add_of_le hlimit
  refine Visit.outcome_of_limit (fun visit hvisit ↦ ?_) more
  obtain ⟨left, hleft⟩ :=
    hvisit.affords (Visit.affords_of_nestingBound hacyclic (Nat.le_refl _) env)
  exact hleft.depth_ne_zero

/-- The condition cannot be left out: a constant whose expression is its own name comes to the
limit on nesting, however high that is. -/
theorem evaluate_tooDeep_of_self {declarations : Declarations} {name : String} {pos : Pos}
    (hconstant : declarations.constants.find? name = some (.access pos name)) {env : Env}
    (hfree : env.find? name = none) (limit : Nat) :
    (evaluate limit declarations (.access pos name) env).1 = .error .tooDeep := by
  induction limit with
  | zero => rfl
  | succ limit ih =>
    have hget : (get : Evaluation Env).run.run env = (.ok env, env) := rfl
    rw [evaluate, Evaluation.expression, Evaluation.access, Evaluation.run_bind_of_ok hget, hfree]
    dsimp only
    rw [hconstant]
    exact ih

/-- Only cyclic references can run away. If no function or constant that is followed from an
expression leads back to itself, then under every limit from a bound on, which is computed from the
expression and the declarations alone, no evaluation of it comes to the limit on nesting. -/
theorem evaluate_ne_tooDeep_of_acyclic (declarations : Declarations) (expr : Expr)
    (hacyclic : ∀ reference, expr.Follows declarations reference →
      ¬ Relation.TransGen declarations.Refers reference reference) :
    ∀ (env : Env) (limit : Nat), declarations.nestingBound expr ≤ limit →
      (evaluate limit declarations expr env).1 ≠ .error .tooDeep := by
  intro env limit hlimit h
  have hfault : (Visit.outcome declarations ⟨limit, expr, env⟩).1 = .error .tooDeep := h
  obtain ⟨visit, hvisit, -, hdepth | ⟨cause, hcause⟩⟩ := Visit.exists_of_fault hfault
  · obtain ⟨left, hleft⟩ := hvisit.affords (Visit.affords_of_nestingBound hacyclic hlimit env)
    exact hleft.depth_ne_zero hdepth
  · cases hcause

/-- A call of a function that reads a constant, which reads another one. -/
theorem evaluate_ne_tooDeep_of_acyclic_call :
    let function : FunctionDef :=
      ⟨.unknown, "f", ["a"], .binary .unknown .add (.access .unknown "a") (.access .unknown "c")⟩
    let constant : Expr := .binary .unknown .mul (.access .unknown "PI") (.access .unknown "PI")
    let declarations : Declarations := ⟨.empty, .ofList [("f", function)],
      .ofList [("PI", .literal .unknown (.number 3.0)), ("c", constant)]⟩
    let expr : Expr := .userCall .unknown "f" [.access .unknown "c"]
    declarations.nestingBound expr = 9 ∧
      (∀ reference, expr.Follows declarations reference →
        ¬ Relation.TransGen declarations.Refers reference reference) ∧
      ∀ env, (evaluate 9 declarations expr env).1 ≠ .error .tooDeep := by
  intro function constant declarations expr
  let rank (reference : Reference) : Nat :=
    if reference = .function "f" then 2 else if reference = .constant "c" then 1 else 0
  have hacyclic : expr.Acyclic declarations := Expr.acyclic_of_rank rank (by decide) expr
  exact ⟨rfl, hacyclic,
    fun env ↦ evaluate_ne_tooDeep_of_acyclic declarations expr hacyclic env 9 (by decide)⟩

end Reckoner
