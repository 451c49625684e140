import Reckoner.Builtin
import Reckoner.Expr

/-!
The nodes of an expression, and what reading makes of them. An expression that has been read
is readable in the sense defined here: its operators have a meaning, comparisons stand as
conditions of an `if` and nowhere else, its literals are numbers and texts, and every call in
it is of a function that may be called.
-/

set_option autoImplicit false
set_option relaxedAutoImplicit false

namespace Reckoner

namespace Operator

/-- Whether the operator calculates something from its operands. -/
def calculates : Operator → Bool
  | add | sub | mul | div | pow => true
  | _ => false

/-- Whether the operator compares its operands. -/
def compares : Operator → Bool
  | lt | gt | le | ge | eq | ne => true
  | _ => false

theorem calculates_ne_compares {op : Operator} (h : op.calculates = true) :
    op.compares = false := by
  cases op <;> simp_all [calculates, compares]

end Operator

namespace Expr

/-- The expressions that stand directly inside an expression. -/
def children : Expr → List Expr
  | literal _ _ => []
  | access _ _ => []
  | binary _ _ left right => [left, right]
  | ifThenElse _ condition thenBranch elseBranch => [condition, thenBranch, elseBranch]
  | letIn _ _ value body => [value, body]
  | letGroup _ bindings body => bindings.map (·.2) ++ [body]
  | userCall _ _ args => args
  | builtinCall _ _ args => args
  | function _ _ _ body => [body]
  | endMarker _ => []

/-- The first expression is the second one, or stands somewhere inside it. -/
inductive NodeOf : Expr → Expr → Prop where
  | self (expr : Expr) : NodeOf expr expr
  | inside {node child expr : Expr} (hchild : child ∈ expr.children) (hnode : NodeOf node child) :
      NodeOf node expr

/-- Whether all nodes of the expression have the property. -/
def Everywhere (property : Expr → Prop) (expr : Expr) : Prop :=
  ∀ node, NodeOf node expr → property node

variable {property property' : Expr → Prop} {expr : Expr}

theorem everywhere_iff : expr.Everywhere property ↔
    property expr ∧ ∀ child ∈ expr.children, child.Everywhere property := by
  constructor
  · exact fun h ↦ ⟨h expr (.self expr), fun child hchild node hnode ↦ h node (.inside hchild hnode)⟩
  · rintro ⟨hexpr, hchildren⟩ node hnode
    cases hnode with
    | self => exact hexpr
    | inside hchild hnode => exact hchildren _ hchild node hnode

theorem Everywhere.child (h : expr.Everywhere property) {child : Expr}
    (hchild : child ∈ expr.children) : child.Everywhere property :=
  (everywhere_iff.mp h).2 child hchild

theorem Everywhere.imp (h : expr.Everywhere property)
    (himp : ∀ node, property node → property' node) : expr.Everywhere property' :=
  fun node hnode ↦ himp node (h node hnode)

theorem Everywhere.and (h : expr.Everywhere property) (h' : expr.Everywhere property') :
    expr.Everywhere fun node ↦ property node ∧ property' node :=
  fun node hnode ↦ ⟨h node hnode, h' node hnode⟩

theorem everywhere_binary_iff {pos : Pos} {op : Operator} {left right : Expr} :
    (binary pos op left right).Everywhere property ↔
      property (binary pos op left right) ∧ left.Everywhere property ∧
        right.Everywhere property := by
  rw [everywhere_iff, children, List.forall_mem_cons, List.forall_mem_singleton]

theorem everywhere_ifThenElse_iff {pos : Pos} {condition thenBranch elseBranch : Expr} :
    (ifThenElse pos condition thenBranch elseBranch).Everywhere property ↔
      property (ifThenElse pos condition thenBranch elseBranch) ∧
        condition.Everywhere property ∧ thenBranch.Everywhere property ∧
          elseBranch.Everywhere property := by
  rw [everywhere_iff, children, List.forall_mem_cons, List.forall_mem_cons,
    List.forall_mem_singleton]

theorem everywhere_letIn_iff {pos : Pos} {name : String} {value body : Expr} :
    (letIn pos name value body).Everywhere property ↔
      property (letIn pos name value body) ∧ value.Everywhere property ∧
        body.Everywhere property := by
  rw [everywhere_iff, children, List.forall_mem_cons, List.forall_mem_singleton]

theorem everywhere_letGroup_iff {pos : Pos} {bindings : List (String × Expr)} {body : Expr} :
    (letGroup pos bindings body).Everywhere property ↔
      property (letGroup pos bindings body) ∧
        (∀ binding ∈ bindings, binding.2.Everywhere property) ∧ body.Everywhere property := by
  rw [everywhere_iff, children, List.forall_mem_append, List.forall_mem_map,
    List.forall_mem_singleton]

end Expr

mutual

/-- The nodes of an expression, each in front of those inside it. -/
def Expr.nodes : Expr → List Expr
  | .literal pos value => [.literal pos value]
  | .access pos name => [.access pos name]
  | .binary pos op left right => .binary pos op left right :: (left.nodes ++ right.nodes)
  | .ifThenElse pos condition thenBranch elseBranch =>
    .ifThenElse pos condition thenBranch elseBranch ::
      (condition.nodes ++ (thenBranch.nodes ++ elseBranch.nodes))
  | .letIn pos name value body => .letIn pos name value body :: (value.nodes ++ body.nodes)
  | .letGroup pos bindings body =>
    .letGroup pos bindings body :: (nodesOfBindings bindings ++ body.nodes)
  | .userCall pos name args => .userCall pos name args :: nodesOfArgs args
  | .builtinCall pos name args => .builtinCall pos name args :: nodesOfArgs args
  | .function pos name parameters body => .function pos name parameters body :: body.nodes
  | .endMarker pos => [.endMarker pos]

/-- The nodes of arguments. -/
def nodesOfArgs : List Expr → List Expr
  | [] => []
  | arg :: rest => arg.nodes ++ nodesOfArgs rest

/-- The nodes of bound expressions. -/
def nodesOfBindings : List (String × Expr) → List Expr
  | [] => []
  | (_, value) :: rest => value.nodes ++ nodesOfBindings rest

end

theorem nodesOfArgs_eq_flatMap (args : List Expr) : nodesOfArgs args = args.flatMap Expr.nodes := by
  induction args with
  | nil => rw [nodesOfArgs, List.flatMap_nil]
  | cons arg rest ih => rw [nodesOfArgs, ih, List.flatMap_cons]

theorem nodesOfBindings_eq_flatMap (bindings : List (String × Expr)) :
    nodesOfBindings bindings = (bindings.map (·.2)).flatMap Expr.nodes := by
  induction bindings with
  | nil => rw [nodesOfBindings, List.map_nil, List.flatMap_nil]
  | cons binding rest ih => rw [nodesOfBindings, ih, List.map_cons, List.flatMap_cons]

namespace Expr

variable {property : Expr → Prop} {expr : Expr}

theorem nodes_eq (expr : Expr) : expr.nodes = expr :: expr.children.flatMap nodes := by
  cases expr <;> simp [nodes, children, nodesOfArgs_eq_flatMap, nodesOfBindings_eq_flatMap]

theorem everywhere_iff_forall_nodes :
    expr.Everywhere property ↔ ∀ node ∈ expr.nodes, property node := by
  have hstep {expr : Expr} (h : ∀ child ∈ expr.children,
      (child.Everywhere property ↔ ∀ node ∈ child.nodes, property node)) :
      expr.Everywhere property ↔ ∀ node ∈ expr.nodes, property node := by
    rw [everywhere_iff, nodes_eq, List.forall_mem_cons, List.forall_mem_flatMap]
    exact and_congr_right fun _ ↦ forall₂_congr h
  induction expr using inductionOn with
  | literal pos value => exact hstep (List.forall_mem_nil _)
  | access pos name => exact hstep (List.forall_mem_nil _)
  | binary pos op left right hleft hright =>
    exact hstep (List.forall_mem_cons.mpr ⟨hleft, List.forall_mem_singleton.mpr hright⟩)
  | ifThenElse pos condition thenBranch elseBranch hcondition hthen helse =>
    exact hstep (List.forall_mem_cons.mpr ⟨hcondition,
      List.forall_mem_cons.mpr ⟨hthen, List.forall_mem_singleton.mpr helse⟩⟩)
  | letIn pos name value body hvalue hbody =>
    exact hstep (List.forall_mem_cons.mpr ⟨hvalue, List.forall_mem_singleton.mpr hbody⟩)
  | letGroup pos bindings body hbindings hbody =>
    exact hstep (List.forall_mem_append.mpr
      ⟨List.forall_mem_map.mpr hbindings, List.forall_mem_singleton.mpr hbody⟩)
  | userCall pos name args hargs => exact hstep hargs
  | builtinCall pos name args hargs => exact hstep hargs
  | function pos name parameters body hbody => exact hstep (List.forall_mem_singleton.mpr hbody)
  | endMarker pos => exact hstep (List.forall_mem_nil _)

instance [DecidablePred property] (expr : Expr) : Decidable (expr.Everywhere property) :=
  decidable_of_iff _ everywhere_iff_forall_nodes.symm

end Expr

mutual

/-- The expression with all positions taken away. -/
def Expr.unplaced : Expr → Expr
  | .literal _ value => .literal .unknown value
  | .access _ name => .access .unknown name
  | .binary _ op left right => .binary .unknown op left.unplaced right.unplaced
  | .ifThenElse _ condition thenBranch elseBranch =>
    .ifThenElse .unknown condition.unplaced thenBranch.unplaced elseBranch.unplaced
  | .letIn _ name value body => .letIn .unknown name value.unplaced body.unplaced
  | .letGroup _ bindings body => .letGroup .unknown (unplacedBindings bindings) body.unplaced
  | .userCall _ name args => .userCall .unknown name (unplacedArgs args)
  | .builtinCall _ name args => .builtinCall .unknown name (unplacedArgs args)
  | .function _ name parameters body => .function .unknown name parameters body.unplaced
  | .endMarker _ => .endMarker .unknown

/-- The arguments without their positions. -/
def unplacedArgs : List Expr → List Expr
  | [] => []
  | arg :: rest => arg.unplaced :: unplacedArgs rest

/-- The bindings without their positions. -/
def unplacedBindings : List (String × Expr) → List (String × Expr)
  | [] => []
  | (name, value) :: rest => (name, value.unplaced) :: unplacedBindings rest

end

namespace Expr

variable {property property' : Expr → Prop} {expr : Expr}

/-- Whether the expression is a comparison. -/
def compares : Expr → Bool
  | binary _ op _ _ => op.compares
  | _ => false

/-- Whether reading makes such a node where the given functions may be called. -/
def IsRead (builtins : NameMap Builtin) (callable : String → Prop) : Expr → Prop
  | literal _ value => (∃ x, value = .number x) ∨ ∃ content, value = .text content
  | access _ _ => True
  | binary _ op left right =>
    (op.calculates = true ∨ op.compares = true) ∧ left.compares = false ∧ right.compares = false
  | ifThenElse _ condition thenBranch elseBranch =>
    condition.compares = true ∧ thenBranch.compares = false ∧ elseBranch.compares = false
  | letIn _ _ value body => value.compares = false ∧ body.compares = false
  | letGroup _ bindings body =>
    (∀ binding ∈ bindings, binding.2.compares = false) ∧ body.compares = false
  | userCall _ name args =>
    builtins.contains name = false ∧ callable name ∧ ∀ arg ∈ args, arg.compares = false
  | builtinCall _ name args =>
    builtins.contains name = true ∧ ∀ arg ∈ args, arg.compares = false
  | function _ _ _ _ => False
  | endMarker _ => True

/-- Whether the expression can have been read where the given functions may be called. -/
structure Readable (builtins : NameMap Builtin) (callable : String → Prop) (expr : Expr) :
    Prop where
  plain : expr.compares = false
  nodes : expr.Everywhere (IsRead builtins callable)

variable {builtins : NameMap Builtin} {callable callable' : String → Prop}

/-- More functions may be called. -/
theorem IsRead.mono (himp : ∀ name, callable name → callable' name)
    (h : IsRead builtins callable expr) : IsRead builtins callable' expr := by
  cases expr with
  | userCall pos name args => exact ⟨h.1, himp name h.2.1, h.2.2⟩
  | _ => exact h

theorem Readable.mono (h : expr.Readable builtins callable)
    (himp : ∀ name, callable name → callable' name) : expr.Readable builtins callable' :=
  ⟨h.plain, h.nodes.imp fun _ ↦ IsRead.mono himp⟩

/-- A readable expression from a node and readable children. -/
theorem readable_of_children (hplain : expr.compares = false)
    (hnode : IsRead builtins callable expr)
    (hchildren : ∀ child ∈ expr.children, child.Readable builtins callable) :
    expr.Readable builtins callable :=
  ⟨hplain, everywhere_iff.mpr ⟨hnode, fun child hchild ↦ (hchildren child hchild).nodes⟩⟩

theorem readable_binary {left right : Expr} {op : Operator} (pos : Pos)
    (hop : op.calculates = true) (hleft : left.Readable builtins callable)
    (hright : right.Readable builtins callable) :
    (binary pos op left right).Readable builtins callable := by
  refine readable_of_children (Operator.calculates_ne_compares hop)
    ⟨.inl hop, hleft.plain, hright.plain⟩ ?_
  exact List.forall_mem_cons.mpr ⟨hleft, List.forall_mem_singleton.mpr hright⟩

theorem readable_number (pos : Pos) (x : Float) :
    (literal pos (.number x)).Readable builtins callable :=
  readable_of_children rfl (.inl ⟨x, rfl⟩) fun _ hchild ↦ absurd hchild List.not_mem_nil

theorem readable_text (pos : Pos) (content : String) :
    (literal pos (.text content)).Readable builtins callable :=
  readable_of_children rfl (.inr ⟨content, rfl⟩) fun _ hchild ↦ absurd hchild List.not_mem_nil

theorem readable_access (pos : Pos) (name : String) :
    (access pos name).Readable builtins callable :=
  readable_of_children rfl trivial fun _ hchild ↦ absurd hchild List.not_mem_nil

theorem readable_endMarker (pos : Pos) : (endMarker pos).Readable builtins callable :=
  readable_of_children rfl trivial fun _ hchild ↦ absurd hchild List.not_mem_nil

theorem readable_letIn {value body : Expr} (pos : Pos) (name : String)
    (hvalue : value.Readable builtins callable) (hbody : body.Readable builtins callable) :
    (letIn pos name value body).Readable builtins callable := by
  refine readable_of_children rfl ⟨hvalue.plain, hbody.plain⟩ ?_
  exact List.forall_mem_cons.mpr ⟨hvalue, List.forall_mem_singleton.mpr hbody⟩

theorem readable_letGroup {bindings : List (String × Expr)} {body : Expr} (pos : Pos)
    (hbindings : ∀ binding ∈ bindings, binding.2.Readable builtins callable)
    (hbody : body.Readable builtins callable) :
    (letGroup pos bindings body).Readable builtins callable := by
  refine readable_of_children rfl
    ⟨fun binding hbinding ↦ (hbindings binding hbinding).plain, hbody.plain⟩ ?_
  exact List.forall_mem_append.mpr
    ⟨List.forall_mem_map.mpr hbindings, List.forall_mem_singleton.mpr hbody⟩

/-- The condition of an `if` is a comparison, which is no readable expression by itself. -/
theorem readable_ifThenElse {left right thenBranch elseBranch : Expr} {op : Operator}
    (pos conditionPos : Pos) (hop : op.compares = true) (hleft : left.Readable builtins callable)
    (hright : right.Readable builtins callable) (hthen : thenBranch.Readable builtins callable)
    (helse : elseBranch.Readable builtins callable) :
    (ifThenElse pos (binary conditionPos op left right) thenBranch elseBranch).Readable
      builtins callable := by
  have hcondition : (binary conditionPos op left right).Everywhere (IsRead builtins callable) := by
    refine everywhere_iff.mpr ⟨⟨.inr hop, hleft.plain, hright.plain⟩, ?_⟩
    exact List.forall_mem_cons.mpr ⟨hleft.nodes, List.forall_mem_singleton.mpr hright.nodes⟩
  refine ⟨rfl, everywhere_iff.mpr ⟨⟨hop, hthen.plain, helse.plain⟩, ?_⟩⟩
  exact List.forall_mem_cons.mpr ⟨hcondition,
    List.forall_mem_cons.mpr ⟨hthen.nodes, List.forall_mem_singleton.mpr helse.nodes⟩⟩

theorem readable_builtinCall {name : String} {args : List Expr} (pos : Pos)
    (hname : builtins.contains name = true)
    (hargs : ∀ arg ∈ args, arg.Readable builtins callable) :
    (builtinCall pos name args).Readable builtins callable :=
  readable_of_children rfl ⟨hname, fun arg harg ↦ (hargs arg harg).plain⟩ hargs

theorem readable_userCall {name : String} {args : List Expr} (pos : Pos)
    (hname : builtins.contains name = false) (hcallable : callable name)
    (hargs : ∀ arg ∈ args, arg.Readable builtins callable) :
    (userCall pos name args).Readable builtins callable :=
  readable_of_children rfl ⟨hname, hcallable, fun arg harg ↦ (hargs arg harg).plain⟩ hargs

end Expr

end Reckoner
