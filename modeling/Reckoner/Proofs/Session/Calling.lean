import Reckoner.Proofs.Declarations.Places
import Reckoner.Proofs.Grammar.Openings
import Reckoner.Proofs.Grammar.Resolution
import Reckoner.Proofs.Session.History
import Reckoner.Proofs.Session.Reprinting

/-!
Calls of declared functions. A header takes any word for the name of the function, a call only a
word that is no keyword. So a function with the name of an identifier can be called in its session,
with as many arguments as it has parameters, and one with the name of a keyword cannot be called
at all.
-/

set_option autoImplicit false
set_option relaxedAutoImplicit false

namespace Reckoner

/-- The text of a call with zeros for its arguments. -/
def callText (name : String) (count : Nat) : String :=
  name ++ "(" ++ ", ".intercalate (List.replicate count "0") ++ ")"

/-- A call with zeros for its arguments. -/
def zeroCall (name : String) (count : Nat) : Expr :=
  .userCall .unknown name (List.replicate count (.literal .unknown (.number 0.0)))

theorem literal_zero : (Value.number 0.0).literal = "0" := by
  decide +kernel

theorem render_zeroCall (name : String) (count : Nat) :
    (zeroCall name count).render = callText name count := by
  simp only [zeroCall, Expr.render, renderArgs_eq_map, List.map_replicate, literal_zero,
    commaSeparated, callText]

theorem unplacedArgs_eq_replicate {args : List Expr} {count : Nat}
    (h : unplacedArgs args = List.replicate count (.literal .unknown (.number 0.0))) :
    args.length = count ∧ ∀ arg ∈ args, ∃ pos, arg = .literal pos (.number 0.0) := by
  rw [unplacedArgs_eq_map] at h
  have hlength := congrArg List.length h
  rw [List.length_map, List.length_replicate] at hlength
  refine ⟨hlength, fun arg harg ↦ ?_⟩
  have hmem : arg.unplaced ∈ List.replicate count (Expr.literal .unknown (.number 0.0)) :=
    h ▸ List.mem_map_of_mem harg
  have heq := List.eq_of_mem_replicate hmem
  cases arg with
  | literal pos value =>
    cases heq
    exact ⟨pos, rfl⟩
  | _ => cases heq

/-- A call of zeros, wherever it stands. -/
theorem eq_userCall_of_unplaced {expr : Expr} {name : String} {count : Nat}
    (h : expr.unplaced = (zeroCall name count).unplaced) :
    ∃ pos args, expr = .userCall pos name args ∧ args.length = count ∧
      ∀ arg ∈ args, ∃ pos, arg = .literal pos (.number 0.0) := by
  have hzeros : (zeroCall name count).unplaced = zeroCall name count := by
    simp [zeroCall, Expr.unplaced, unplacedArgs_eq_map, List.map_replicate]
  rw [hzeros] at h
  cases expr with
  | userCall pos called args =>
    obtain ⟨-, rfl, hargs⟩ := Expr.userCall.inj h
    exact ⟨pos, args, rfl, unplacedArgs_eq_replicate hargs⟩
  | _ => cases h

/-- Such a call can be printed where the function is declared. -/
theorem isPrinted_zeroCall {declarations : Declarations} {name : String} (hname : IsIdentifier name)
    (hbuiltin : declarations.builtins.contains name = false)
    (hfunction : declarations.functions.contains name = true) (count : Nat) :
    (zeroCall name count).Everywhere (Expr.IsPrinted declarations.builtins
      (declarations.functions.contains · = true)) := by
  have hzero : (Expr.literal .unknown (.number 0.0)).Everywhere
      (Expr.IsPrinted declarations.builtins (declarations.functions.contains · = true)) := by
    refine Expr.everywhere_iff.mpr ⟨⟨.inl ⟨_, rfl⟩, trivial, ?_⟩, List.forall_mem_nil _⟩
    change Number.isPlain 0.0 = true
    decide +kernel
  have hargs : ∀ arg ∈ List.replicate count (Expr.literal .unknown (.number 0.0)),
      arg = .literal .unknown (.number 0.0) := fun arg harg ↦ List.eq_of_mem_replicate harg
  refine Expr.everywhere_iff.mpr ⟨⟨⟨hbuiltin, hfunction, fun arg harg ↦ ?_⟩, hname, trivial⟩,
    fun arg harg ↦ ?_⟩
  · rw [hargs arg harg]
    rfl
  · rw [hargs arg harg]
    exact hzero

/-- Such a call opens one form, whatever the number of zeros. -/
theorem openings_zeroCall {tokens : List Token} {name : String} {count : Nat}
    (h : tokens.map Token.spelling = (zeroCall name count).spelled ++ [(.eof, "")]) :
    openings tokens = 1 := by
  have hspelling : openings tokens = (tokens.map Token.spelling).countP (·.1.Opens) := by
    rw [List.countP_map]
    rfl
  -- between the parentheses there are numbers and commas only
  have hargs : ∀ spelling ∈ commaJoined (List.replicate count [(TokenKind.number, "0")]),
      ¬ spelling.1.Opens := by
    cases count with
    | zero => exact List.forall_mem_nil _
    | succ count =>
      rw [List.replicate_succ, commaJoined_cons]
      refine List.forall_mem_append.mpr ⟨List.forall_mem_singleton.mpr (by decide), ?_⟩
      refine List.forall_mem_flatMap.mpr fun row hrow ↦ ?_
      rw [List.eq_of_mem_replicate hrow]
      exact List.forall_mem_cons.mpr ⟨by decide, List.forall_mem_singleton.mpr (by decide)⟩
  have hnone : (commaJoined (List.replicate count [(TokenKind.number, "0")])).countP
      (·.1.Opens) = 0 :=
    List.countP_eq_zero.mpr fun spelling hspelling ↦ by simpa using hargs spelling hspelling
  rw [hspelling, h, zeroCall, Expr.spelled, spelledArgs_eq_map, List.map_replicate, Expr.spelled,
    literal_zero]
  simp only [List.cons_append, List.countP_cons, List.countP_append, hnone]
  rfl

namespace Session

variable {limit : Nat} {session : Session}

/-- A declared function can be called under any name that is an identifier. -/
theorem parse_callText {name : String} (hname : IsIdentifier name)
    (hbuiltin : session.declarations.builtins.contains name = false)
    (hfunction : session.declarations.functions.contains name = true) (count : Nat)
    (hlimit : 8 ≤ limit) :
    ∃ pos args,
      session.parse limit (callText name count) = (.ok (.userCall pos name args), session) ∧
        args.length = count ∧ ∀ arg ∈ args, ∃ pos, arg = .literal pos (.number 0.0) := by
  have hprinted := isPrinted_zeroCall hname hbuiltin hfunction count
  obtain ⟨tokens, htokens, hspelled⟩ := tokenize_render limit hprinted
  obtain ⟨tree, hderives, hdeclared, hvalue⟩ :=
    Statement.exists_derives_of_spelled hprinted rfl hspelled
  have hopenings : 4 * (openings tokens + 1) ≤ limit := by
    rw [openings_zeroCall hspelled]
    exact hlimit
  have hread := Statement.ofTokens_of_openings hderives hopenings
  obtain ⟨pos, args, hcall, hargs⟩ := eq_userCall_of_unplaced hvalue
  refine ⟨pos, args, ?_, hargs⟩
  rw [← render_zeroCall, parse, htokens]
  dsimp only
  rw [hread]
  dsimp only
  rw [hcall, hdeclared]
  rfl

/-- What is read calls functions only by names that are identifiers. -/
theorem isIdentifier_of_userCall {text : String} {expr : Expr} {after : Session}
    (h : session.parse limit text = (.ok expr, after)) {pos : Pos} {name : String}
    {args : List Expr} (hnode : .userCall pos name args ∈ expr.nodes) : IsIdentifier name := by
  obtain ⟨failure, -, hfailure⟩ | ⟨tokens, statement, hreads, hparse⟩ :=
    parse_cases limit session text
  · rw [hfailure] at h
    cases h
  · rw [hparse] at h
    obtain ⟨hexpr, -⟩ := Prod.mk.inj h
    obtain rfl := Except.ok.inj hexpr
    exact Expr.everywhere_iff_forall_nodes.mp (isSpelled_of_reads hreads) _ hnode

/-- Functions are declared under names. -/
theorem isName_of_find? (builtins : NameMap Builtin) (constants : List (String × Float))
    (calls : List Call) {name : String} {definition : FunctionDef}
    (h : ((start builtins constants).callAll calls).declarations.functions.find? name =
      some definition) : Header.IsName name.toList := by
  rw [callAll_eq_readAll] at h
  rcases (recorded_readAll (start builtins constants) _).functions name definition h with
    ⟨rfl, tokens, before, limit, text, behind, statement, -, hreads, hmem⟩ | hfirst
  · obtain ⟨token, htoken, hkind, hname⟩ :=
      Statement.exists_isName_of_ofTokens hreads.2 _ hmem
    have hname : token.text = definition.name := hname
    rw [← hname]
    rcases hkind with hkind | hkind
    · exact ((wellSpelled_tokenize hreads.1 token htoken).identifier hkind).1
    · exact isName_functionName hreads.1 token htoken hkind
  · cases hfirst

/-- Which declared functions can be called. In every session that is reached from a new one, a
function that is declared under an identifier is called by the text of a call with as many
arguments as it has parameters: the text is read as a call of that function with those arguments,
and the session stays as it is. Eight levels of nesting are enough for that, whatever the number
of parameters. A header takes keywords for names, too, and a function that is declared under a
keyword can be called by no text. -/
theorem parse_declared_call (builtins : NameMap Builtin) (constants : List (String × Float))
    (calls : List Call) (name : String) (definition : FunctionDef)
    (h : ((start builtins constants).callAll calls).declarations.functions.find? name =
      some definition) :
    let session := (start builtins constants).callAll calls
    let count := definition.parameters.length
    (TokenKind.ofWord name = .identifier → ∀ limit, 8 ≤ limit → ∃ pos args,
      session.parse limit (callText name count) = (.ok (.userCall pos name args), session) ∧
        args.length = count ∧ ∀ arg ∈ args, ∃ pos, arg = .literal pos (.number 0.0)) ∧
    (TokenKind.ofWord name ≠ .identifier → ∀ limit text expr after,
      session.parse limit text = (.ok expr, after) →
        ∀ pos args, .userCall pos name args ∉ expr.nodes) := by
  intro session count
  have hfunction : session.declarations.functions.contains name = true := by
    rw [NameMap.contains, h]
    rfl
  have hbuiltin := (sound_callAll builtins constants calls).unshadowed name hfunction
  refine ⟨fun hword limit hlimit ↦ ?_, fun hword limit text expr after hparse pos args hnode ↦ ?_⟩
  · have hname := isName_of_find? builtins constants calls h
    exact parse_callText ⟨hname, hword⟩ hbuiltin hfunction count hlimit
  · exact hword (isIdentifier_of_userCall hparse hnode).2

/-- A function of two parameters, called under the smallest limit. -/
theorem parse_declared_call_sum :
    let session := standard.callAll [.parse 20 "function sum(a, b) => a + b"]
    ∃ definition, session.declarations.functions.find? "sum" = some definition ∧
      TokenKind.ofWord "sum" = .identifier ∧
        callText "sum" definition.parameters.length = "sum(0, 0)" ∧
          ∃ pos args, session.parse 8 "sum(0, 0)" = (.ok (.userCall pos "sum" args), session) ∧
            args.length = 2 := by
  intro session
  have hcount : (session.declarations.functions.find? "sum").map (·.parameters.length) =
      some 2 := by
    decide +kernel
  obtain ⟨definition, hfind, hcount⟩ := Option.map_eq_some_iff.mp hcount
  have htext : callText "sum" definition.parameters.length = "sum(0, 0)" := by
    rw [hcount]
    decide +kernel
  obtain ⟨pos, args, hparse, hlength, -⟩ := (parse_declared_call Builtin.standard []
    [.parse 20 "function sum(a, b) => a + b"] "sum" definition hfind).1 rfl 8 le_rfl
  rw [htext] at hparse
  exact ⟨definition, hfind, rfl, htext, pos, args, hparse, hlength.trans hcount⟩

/-- A function is declared that no text calls. -/
theorem parse_declared_call_keyword :
    let session := standard.callAll [.parse 20 "function if() => 1"]
    (session.declarations.functions.find? "if").map (·.parameters.length) = some 0 ∧
      callText "if" 0 = "if()" ∧ (session.parse nestingLimit "if()").1.isOk = false := by
  decide +kernel

end Session

end Reckoner
