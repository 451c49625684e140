import Reckoner.Builtin.Standard
import Reckoner.Evaluation
import Reckoner.Failure
import Reckoner.Source
import Reckoner.Statement
import Reckoner.Token.Scan

/-!
Sessions. A session holds what its statements have declared. A statement that cannot be
read declares nothing; one that can be read has declared what it declares even if its
evaluation fails. Each statement is evaluated with no variables to begin with.
-/

set_option autoImplicit false
set_option relaxedAutoImplicit false

namespace Reckoner

/-- The limit on nesting, for each of the three stages. -/
def nestingLimit : Nat := 750

/-- What lasts from one statement to the next. -/
structure Session where
  declarations : Declarations

/-- A statement with what came of it. -/
structure Outcome where
  statement : String
  result : Except Failure Value

namespace Outcome

/-- Whether the statement has a value. -/
def isOk (outcome : Outcome) : Bool :=
  outcome.result.isOk

/-- The value as a result, or the report of the failure. -/
def display (outcome : Outcome) : String :=
  match outcome.result with
  | .ok value => value.display
  | .error failure => failure.report

end Outcome

namespace Session

/-- A new session with a table of built-in functions and further seeded constants. -/
def start (builtins : NameMap Builtin) (constants : List (String × Float)) : Session :=
  ⟨.initial builtins constants⟩

/-- A new session with the standard table. -/
def standard : Session :=
  start Builtin.standard []

/-- The tokens of a statement. -/
def tokenize (limit : Nat) (statement : String) : Except Failure (List Token) :=
  (Reckoner.tokenize limit statement).mapError .lex

/-- Reads a statement: its expression, and the session with its declarations. -/
def parse (limit : Nat) (session : Session) (statement : String) :
    Except Failure Expr × Session :=
  match Reckoner.tokenize limit statement with
  | .error fault => (.error (.lex fault), session)
  | .ok tokens =>
    match Statement.ofTokens limit session.declarations tokens with
    | .error fault => (.error (.parse fault), session)
    | .ok statement => (.ok statement.expr, ⟨session.declarations.declareAll statement.declared⟩)

/-- Evaluates an expression that has been read. -/
def execute (limit : Nat) (session : Session) (expr : Expr) : Except Failure Value :=
  (Reckoner.evaluate limit session.declarations expr .empty).1.mapError .runtime

/-- Reads and evaluates a statement. -/
def evaluate (limit : Nat) (session : Session) (statement : String) :
    Except Failure Value × Session :=
  match parse limit session statement with
  | (.error failure, after) => (.error failure, after)
  | (.ok expr, after) => (after.execute limit expr, after)

/-- Evaluates statements one after the other, whatever becomes of each. -/
def runAll (limit : Nat) (session : Session) : List String → List Outcome × Session
  | [] => ([], session)
  | statement :: rest =>
    let (result, next) := session.evaluate limit statement
    let (outcomes, last) := next.runAll limit rest
    (⟨statement, result⟩ :: outcomes, last)

/-- Evaluates the statements of a source text. -/
def run (limit : Nat) (session : Session) (source : String) : List Outcome × Session :=
  session.runAll limit (Source.statements source)

/-- Evaluates the statements of a source text, with a line for each that has something to
show. -/
def interpret (limit : Nat) (session : Session) (source : String) : List String × Session :=
  let (outcomes, last) := session.run limit source
  ((outcomes.map Outcome.display).filter (· ≠ ""), last)

end Session

end Reckoner
