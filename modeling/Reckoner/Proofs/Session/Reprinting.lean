import Reckoner.Proofs.Grammar.Reprinting
import Reckoner.Proofs.Session.Registry

/-!
Statements that are read, printed and read again. The text of an expression that a session has
read is a statement of the same session, and stands for the same expression.
-/

set_option autoImplicit false
set_option relaxedAutoImplicit false

namespace Reckoner

/-- The tokens of a printed expression. -/
theorem tokenize_render {builtins : NameMap Builtin} {callable : String → Prop} (limit : Nat)
    {expr : Expr} (h : expr.Everywhere (Expr.IsPrinted builtins callable)) :
    ∃ tokens, tokenize limit expr.render = .ok tokens ∧
      tokens.map Token.spelling = expr.spelled ++ [(.eof, "")] := by
  have hspells := Expr.prints limit expr h [] _ apart_nil Scan.Spells.nil
  rw [List.append_nil] at hspells
  exact hspells [] _ rfl

namespace Session

variable {limit : Nat} {session : Session} {text : String} {tokens : List Token}
  {statement : Statement}

/-- A statement without end markers declares nothing. -/
theorem declaring_eq_self (h : Reads limit session text tokens statement)
    (hmarkers : statement.expr.Everywhere (·.isEndMarker = false)) :
    session.declaring statement = session := by
  obtain ⟨tree, hderives, -, rfl⟩ := Statement.derivedFrom_of_ofTokens h.2
  rw [declaring, StatementTree.statement, tree.expr.declared_eq_nil hmarkers]
  rfl

/-- The names and strings of a statement are spelled as its tokens are. -/
theorem isSpelled_of_reads (h : Reads limit session text tokens statement) :
    statement.expr.Everywhere Expr.IsSpelled := by
  obtain ⟨tree, hderives, -, rfl⟩ := Statement.derivedFrom_of_ofTokens h.2
  exact tree.expr.throughout_spelled fun token htoken ↦
    wellSpelled_tokenize h.1 token (hderives.subset htoken)

/-- A reprintable expression that is read from a statement leaves the session as it was, and
printing makes text of all its nodes that is read again. -/
theorem isPrinted_of_reads (h : Reads limit session text tokens statement)
    (hexpr : statement.expr.Everywhere Expr.Reprintable) :
    session.declaring statement = session ∧ statement.expr.compares = false ∧
      statement.expr.Everywhere (Expr.IsPrinted session.declarations.builtins
        (session.declarations.functions.contains · = true)) := by
  have hsame := declaring_eq_self h (hexpr.imp fun node hnode ↦ by
    cases node with
    | endMarker pos => exact hnode.elim
    | _ => rfl)
  obtain ⟨hplain, hnodes⟩ := (keeps_declaring h).1
  rw [hsame] at hnodes
  exact ⟨hsame, hplain, hnodes.and ((isSpelled_of_reads h).and hexpr)⟩

/-- Whether the text of the expression is read as the expression, up to positions, and nothing
is declared. -/
def Rereads (limit : Nat) (session : Session) (expr : Expr) : Prop :=
  ∃ again, session.parse limit expr.render = (.ok again, session) ∧
    again.unplaced = expr.unplaced

/-- An expression that has been read is the same up to positions when it is printed and read
again, if its numbers have no exponent, its strings need no escapes, no left operand of a
calculation is open at its end and nothing was declared. The session is then as it was, both
times. A limit on nesting can do no more than stop the second reading, and a large one does
not. -/
theorem parse_render {expr : Expr} {after : Session}
    (h : session.parse limit text = (.ok expr, after)) (hexpr : expr.Everywhere Expr.Reprintable) :
    after = session ∧
      (∀ limit, session.parse limit expr.render = (.error (.parse .tooDeep), session) ∨
        session.Rereads limit expr) ∧
      ∃ enough, ∀ limit, enough ≤ limit → session.Rereads limit expr := by
  obtain ⟨failure, -, hfailure⟩ | ⟨tokens, statement, hreads, hparse⟩ :=
    parse_cases limit session text
  · rw [hfailure] at h
    cases h
  · rw [hparse] at h
    obtain ⟨hvalue, rfl⟩ := Prod.mk.inj h
    obtain rfl := Except.ok.inj hvalue
    obtain ⟨hsame, hplain, hprinted⟩ := isPrinted_of_reads hreads hexpr
    -- what the second reading comes to, for each outcome of reading its tokens
    have hagain (limit : Nat) :
        (session.parse limit statement.expr.render = (.error (.parse .tooDeep), session) ∨
          session.Rereads limit statement.expr) ∧
        (4 * (statement.expr.spelled.length + 1) ≤ limit →
          session.Rereads limit statement.expr) := by
      obtain ⟨found, hfound, hspelled⟩ := tokenize_render limit hprinted
      obtain ⟨again, hagain, hread⟩ := Statement.ofTokens_of_spelled hprinted hplain hspelled
      obtain ⟨hunder, hwithin⟩ := hread limit
      have hok (h : Statement.ofTokens limit session.declarations found = .ok ⟨again, []⟩) :
          session.Rereads limit statement.expr := by
        refine ⟨again, ?_, hagain⟩
        rw [parse, hfound]
        dsimp only
        rw [h]
        rfl
      have hlength : found.length = statement.expr.spelled.length + 1 := by
        rw [← List.length_map (f := Token.spelling), hspelled, List.length_append]
        rfl
      refine ⟨hunder.imp (fun hdeep ↦ ?_) hok, fun hlimit ↦ hok (hwithin (hlength ▸ hlimit))⟩
      rw [parse, hfound]
      dsimp only
      rw [hdeep]
    exact ⟨hsame, fun limit ↦ (hagain limit).1, _, fun limit ↦ (hagain limit).2⟩

/-- A negative number, a left operand that is closed and a right one that is open. -/
theorem parse_render_let :
    ∃ expr, standard.parse nestingLimit "let x = -2.50 in x ^ 2 - if (x < 1) then \"a b\" else -x" =
        (.ok expr, standard) ∧
      expr.render = "let x = -2.5 in ((x ^ 2) - if (x < 1) then \"a b\" else (0 - x))" ∧
      expr.Everywhere Expr.Reprintable ∧
      ∃ enough, ∀ limit, enough ≤ limit → standard.Rereads limit expr := by
  have hread : (standard.parse nestingLimit
      "let x = -2.50 in x ^ 2 - if (x < 1) then \"a b\" else -x").1.toOption.any (fun expr ↦
        expr.render = "let x = -2.5 in ((x ^ 2) - if (x < 1) then \"a b\" else (0 - x))" ∧
          expr.Everywhere Expr.Reprintable) = true := by
    decide +kernel
  generalize htext : "let x = -2.50 in x ^ 2 - if (x < 1) then \"a b\" else -x" = text at hread ⊢
  cases hparse : standard.parse nestingLimit text with
  | mk result after =>
    rw [hparse] at hread
    cases result with
    | error failure => cases hread
    | ok expr =>
      obtain ⟨hrender, hexpr⟩ := of_decide_eq_true hread
      obtain ⟨rfl, -, henough⟩ := parse_render hparse hexpr
      exact ⟨expr, rfl, hrender, hexpr, henough⟩

end Session

end Reckoner
