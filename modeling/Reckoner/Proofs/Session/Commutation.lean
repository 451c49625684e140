import Reckoner.Proofs.Evaluation.Reach
import Reckoner.Proofs.Grammar.Resolution
import Reckoner.Proofs.Session.Splitting

/-!
Statements in another order. Two statements of which neither has a name in it that the other one
declares can be evaluated in either order: they are read as the same statements, and what is in
force behind both is the same. What becomes of their evaluations does not matter to that, and may
well differ.
-/

set_option autoImplicit false
set_option relaxedAutoImplicit false

namespace Reckoner

namespace Declaration

theorem function?_eq_none {declaration : Declaration} {name : String}
    (h : declaration.name ≠ name) : declaration.function? name = none := by
  cases declaration with
  | function definition => exact if_neg h
  | constant key value => rfl

theorem constant?_eq_none {declaration : Declaration} {name : String}
    (h : declaration.name ≠ name) : declaration.constant? name = none := by
  cases declaration with
  | function definition => rfl
  | constant key value => exact if_neg h

end Declaration

namespace Declarations

variable {declarations declarations' : Declarations} {more : List Declaration} {name : String}

/-- Names that are not declared keep what they had. -/
theorem agreeAt_declareAll (h : ∀ declaration ∈ more, declaration.name ≠ name) :
    (declarations.declareAll more).AgreeAt declarations name := by
  have hupdated := declarations.updatedBy_declareAll more
  have hfunctions : more.filterMap (·.function? name) = [] :=
    List.filterMap_eq_nil_iff.mpr fun declaration hmem ↦
      Declaration.function?_eq_none (h declaration hmem)
  have hconstants : more.filterMap (·.constant? name) = [] :=
    List.filterMap_eq_nil_iff.mpr fun declaration hmem ↦
      Declaration.constant?_eq_none (h declaration hmem)
  refine ⟨?_, ?_, by rw [hupdated.builtins]⟩
  · rw [hupdated.functions, hfunctions]
    rfl
  · rw [hupdated.constants, hconstants]
    rfl

/-- The same declarations have the same effect on a name that stood for the same before. -/
theorem AgreeAt.declareAll (h : declarations.AgreeAt declarations' name)
    (more : List Declaration) :
    (declarations.declareAll more).AgreeAt (declarations'.declareAll more) name := by
  have hupdated := declarations.updatedBy_declareAll more
  have hupdated' := declarations'.updatedBy_declareAll more
  refine ⟨?_, ?_, ?_⟩
  · rw [hupdated.functions, hupdated'.functions, h.functions]
  · rw [hupdated.constants, hupdated'.constants, h.constants]
  · rw [hupdated.builtins, hupdated'.builtins, h.builtins]

theorem AgreeAt.symm (h : declarations.AgreeAt declarations' name) :
    declarations'.AgreeAt declarations name :=
  ⟨h.functions.symm, h.constants.symm, h.builtins.symm⟩

theorem AgreeAt.trans {last : Declarations} (h : declarations.AgreeAt declarations' name)
    (hbehind : declarations'.AgreeAt last name) : declarations.AgreeAt last name :=
  ⟨h.functions.trans hbehind.functions, h.constants.trans hbehind.constants,
    h.builtins.trans hbehind.builtins⟩

theorem AgreeAt.isFunction (h : declarations.AgreeAt declarations' name) :
    declarations.isFunction name = declarations'.isFunction name := by
  unfold Declarations.isFunction NameMap.contains
  rw [h.functions, h.builtins]

/-- Two rows of declarations commute if no name is declared by both. -/
theorem agreeAt_declareAll_comm {first second : List Declaration}
    (h : ∀ declaration ∈ first, ∀ declaration' ∈ second, declaration.name ≠ declaration'.name)
    (name : String) :
    ((declarations.declareAll first).declareAll second).AgreeAt
      ((declarations.declareAll second).declareAll first) name := by
  by_cases hfirst : ∃ declaration ∈ first, declaration.name = name
  · obtain ⟨declaration, hmem, rfl⟩ := hfirst
    have hsecond : ∀ declaration' ∈ second, declaration'.name ≠ declaration.name :=
      fun declaration' hmem' ↦ (h declaration hmem declaration' hmem').symm
    exact (agreeAt_declareAll hsecond).trans
      ((agreeAt_declareAll hsecond).symm.declareAll first)
  · have hfirst : ∀ declaration ∈ first, declaration.name ≠ name :=
      fun declaration hmem hname ↦ hfirst ⟨declaration, hmem, hname⟩
    exact ((agreeAt_declareAll hfirst).declareAll second).trans
      (agreeAt_declareAll hfirst).symm

end Declarations

namespace Session

variable {limit : Nat} {session : Session} {text other : String} {tokens otherTokens : List Token}
  {statement otherStatement : Statement}

/-- No name in the tokens is one that the statement declares. -/
def Avoids (tokens : List Token) (statement : Statement) : Prop :=
  ∀ token ∈ tokens, ∀ declaration ∈ statement.declared, ¬ token.IsName declaration.name

instance (tokens : List Token) (statement : Statement) : Decidable (Avoids tokens statement) :=
  inferInstanceAs (Decidable (∀ token ∈ tokens, ∀ declaration ∈ statement.declared,
    ¬ ((token.kind = .identifier ∨ token.kind = .functionName) ∧ token.text = declaration.name)))

theorem Avoids.agreeAt (h : Avoids tokens statement) (session : Session) {token : Token}
    (htoken : token ∈ tokens) {name : String} (hname : token.IsName name) :
    (session.declaring statement).declarations.AgreeAt session.declarations name :=
  Declarations.agreeAt_declareAll fun declaration hdeclaration heq ↦
    h token htoken declaration hdeclaration (heq ▸ hname)

/-- A text is read in the same way before and behind a statement that declares no name in it. -/
theorem reads_declaring_iff (h : Avoids tokens otherStatement) :
    Reads limit (session.declaring otherStatement) text tokens statement ↔
      Reads limit session text tokens statement := by
  have hbuiltins : (session.declaring otherStatement).declarations.builtins =
      session.declarations.builtins :=
    (session.declarations.updatedBy_declareAll otherStatement.declared).builtins
  refine and_congr_right fun _ ↦ ⟨fun hread ↦ ?_, fun hread ↦ ?_⟩
  · exact Statement.ofTokens_congr hbuiltins.symm
      (fun token htoken name hname ↦ (h.agreeAt session htoken hname).isFunction.symm) hread
  · exact Statement.ofTokens_congr hbuiltins
      (fun token htoken name hname ↦ (h.agreeAt session htoken hname).isFunction) hread

/-- Independent declarations commute. If two statements can be read one after the other, and
neither has a name in it that the other one declares, then they can be read in the other order, as
the same expressions with the same declarations; and all functions and constants are the same
behind both, whatever becomes of the evaluations in either order. -/
theorem evaluate_comm_of_avoids
    (hfirst : Reads limit session text tokens statement)
    (hsecond : Reads limit (session.evaluate limit text).2 other otherTokens otherStatement)
    (havoids : Avoids tokens otherStatement) (havoided : Avoids otherTokens statement) :
    Reads limit session other otherTokens otherStatement ∧
      Reads limit (session.evaluate limit other).2 text tokens statement ∧
      ∀ name, Declarations.AgreeAt
        ((session.evaluate limit text).2.evaluate limit other).2.declarations
        ((session.evaluate limit other).2.evaluate limit text).2.declarations name := by
  have hafter : (session.evaluate limit text).2 = session.declaring statement := by
    rw [evaluate_of_reads hfirst]
  rw [hafter] at hsecond ⊢
  have hother := (reads_declaring_iff havoided).mp hsecond
  have hbehind := (reads_declaring_iff havoids).mpr hfirst
  have hafterOther : (session.evaluate limit other).2 = session.declaring otherStatement := by
    rw [evaluate_of_reads hother]
  rw [hafterOther]
  refine ⟨hother, hbehind, fun name ↦ ?_⟩
  rw [evaluate_of_reads hsecond, evaluate_of_reads hbehind]
  refine Declarations.agreeAt_declareAll_comm (fun declaration hmem declaration' hmem' heq ↦ ?_)
    name
  -- a name that both declare would stand in one of them and be declared by the other
  obtain ⟨token, htoken, hname⟩ :=
    Statement.exists_isName_of_ofTokens hfirst.2 declaration hmem
  exact havoids token htoken declaration' hmem' (heq ▸ hname)

/-- A constant and a function, of which the first statement fails once it has declared. -/
theorem evaluate_comm_of_avoids_failing :
    let text := "(const a = b) + x"
    let other := "function f(y) => y + x"
    ∃ tokens statement otherTokens otherStatement,
      Reads 20 standard text tokens statement ∧
      Reads 20 (standard.evaluate 20 text).2 other otherTokens otherStatement ∧
      Avoids tokens otherStatement ∧ Avoids otherTokens statement ∧
      (standard.evaluate 20 text).1.isOk = false ∧
      Reads 20 standard other otherTokens otherStatement ∧
      Reads 20 (standard.evaluate 20 other).2 text tokens statement ∧
      ∀ name, Declarations.AgreeAt
        ((standard.evaluate 20 text).2.evaluate 20 other).2.declarations
        ((standard.evaluate 20 other).2.evaluate 20 text).2.declarations name := by
  intro text other
  let tokens : List Token := [⟨.leftParen, "(", ⟨1, 1⟩⟩, ⟨.constWord, "const", ⟨1, 2⟩⟩,
    ⟨.identifier, "a", ⟨1, 8⟩⟩, ⟨.operator, "=", ⟨1, 10⟩⟩, ⟨.identifier, "b", ⟨1, 12⟩⟩,
    ⟨.rightParen, ")", ⟨1, 13⟩⟩, ⟨.operator, "+", ⟨1, 15⟩⟩, ⟨.identifier, "x", ⟨1, 17⟩⟩,
    ⟨.eof, "", ⟨1, 18⟩⟩]
  let statement : Statement := ⟨.binary ⟨1, 15⟩ .add (.endMarker ⟨1, 2⟩) (.access ⟨1, 17⟩ "x"),
    [.constant "a" (.access ⟨1, 12⟩ "b")]⟩
  let otherTokens : List Token := [⟨.functionWord, "function", ⟨1, 1⟩⟩,
    ⟨.functionName, "f", ⟨1, 10⟩⟩, ⟨.parameter, "y", ⟨1, 12⟩⟩, ⟨.doubleArrow, "=>", ⟨1, 15⟩⟩,
    ⟨.identifier, "y", ⟨1, 18⟩⟩, ⟨.operator, "+", ⟨1, 20⟩⟩, ⟨.identifier, "x", ⟨1, 22⟩⟩,
    ⟨.eof, "", ⟨1, 23⟩⟩]
  let otherStatement : Statement := ⟨.endMarker ⟨1, 1⟩, [.function ⟨⟨1, 1⟩, "f", ["y"],
    .binary ⟨1, 20⟩ .add (.access ⟨1, 18⟩ "y") (.access ⟨1, 22⟩ "x")⟩]⟩
  have hfirst : Reads 20 standard text tokens statement := ⟨by decide +kernel, rfl⟩
  have hsecond : Reads 20 (standard.evaluate 20 text).2 other otherTokens otherStatement := by
    rw [evaluate_of_reads hfirst]
    exact ⟨by decide +kernel, rfl⟩
  have havoids : Avoids tokens otherStatement := by decide
  have havoided : Avoids otherTokens statement := by decide
  exact ⟨tokens, statement, otherTokens, otherStatement, hfirst, hsecond, havoids, havoided,
    by decide +kernel, evaluate_comm_of_avoids hfirst hsecond havoids havoided⟩

end Session

end Reckoner
