import Reckoner.Position
import Reckoner.Text.Quoted

/-!
What can be wrong with a source text before its tokens are known.
-/

set_option autoImplicit false
set_option relaxedAutoImplicit false

namespace Reckoner

/-- Why a text cannot be cut into tokens. -/
inductive LexError.Cause where
  | invalidCharacter (c : Char)
  | unterminatedString
  | missingFunctionName
  | missingFunctionParen
  | missingParameterName
  | missingParameterEnd
  | missingFunctionArrow
  | missingPrintParen
  | unclosedPrint
  deriving DecidableEq, Repr

/-- The message, without its position. -/
def LexError.Cause.message : LexError.Cause → String
  | invalidCharacter c => "invalid character " ++ Text.quoted (String.singleton c)
  | unterminatedString => "unterminated string literal"
  | missingFunctionName => "expected function name after 'function'"
  | missingFunctionParen => "expected '(' after function name"
  | missingParameterName => "expected parameter name"
  | missingParameterEnd => "expected ',' or ')' in parameter list"
  | missingFunctionArrow => "expected '=>' after function parameters"
  | missingPrintParen => "expected '(' after print"
  | unclosedPrint => "expected ')' to close print"

/-- A source text that is no row of tokens, and the place where that shows. -/
structure LexError where
  cause : LexError.Cause
  pos : Pos
  deriving DecidableEq, Repr

/-- The message behind its position. -/
def LexError.message (error : LexError) : String :=
  error.pos.text ++ ": " ++ error.cause.message

end Reckoner
