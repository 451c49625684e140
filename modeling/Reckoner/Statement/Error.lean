import Reckoner.Token

/-!
What can be wrong with a row of tokens that is no statement.
-/

set_option autoImplicit false
set_option relaxedAutoImplicit false

namespace Reckoner

/-- Why a token is not in its place. -/
inductive ParseError.Cause where
  /-- The statement has ended before it. -/
  | afterStatement
  /-- An expression should start here. -/
  | noExpression
  | expected (kind : TokenKind)
  | expectedEquals
  /-- A number token whose text is no number. -/
  | invalidNumber
  /-- The name of a call that nothing answers to. -/
  | undefinedFunction
  /-- The name of a declaration that is taken. -/
  | functionExists
  | duplicateParameter (function : String)
  deriving DecidableEq, Repr

/-- A row of tokens that is no statement, and the token where that shows. -/
structure ParseError where
  cause : ParseError.Cause
  token : Token
  deriving DecidableEq, Repr

namespace ParseError

/-- The message, without its position. -/
def detail (error : ParseError) : String :=
  let unexpected := "unexpected token " ++ error.token.kind.name
  match error.cause with
  | .afterStatement => unexpected ++ " after end of statement"
  | .noExpression => unexpected ++ " at start of expression"
  | .expected kind => unexpected ++ "; expected one of " ++ kind.name
  | .expectedEquals => unexpected ++ " " ++ Text.quoted error.token.text ++ "; expected '='"
  | .invalidNumber => "invalid number literal " ++ Text.quoted error.token.text
  | .undefinedFunction => "undefined function: " ++ error.token.text
  | .functionExists => "function already defined: " ++ error.token.text
  | .duplicateParameter function =>
    "duplicate parameter " ++ error.token.text ++ " in function " ++ function

/-- The message behind its position. -/
def message (error : ParseError) : String :=
  error.token.pos.text ++ ": " ++ error.detail

end ParseError

end Reckoner
