import Reckoner.Evaluation.Error
import Reckoner.Fault
import Reckoner.Statement.Error
import Reckoner.Token.Error

/-!
The ways in which a statement can fail: at one of three stages, each with errors of its
own and with nesting beyond the limit.
-/

set_option autoImplicit false
set_option relaxedAutoImplicit false

namespace Reckoner

/-- A stage on the way from a statement's text to its value. -/
inductive Stage where
  | lex
  | parse
  | runtime
  deriving DecidableEq, Repr

/-- The name of the stage in messages. -/
def Stage.name : Stage → String
  | lex => "lex"
  | parse => "parse"
  | runtime => "runtime"

/-- A statement's failure at one of the stages. -/
inductive Failure where
  | lex (fault : Fault LexError)
  | parse (fault : Fault ParseError)
  | runtime (fault : Fault EvalError)
  deriving DecidableEq

namespace Failure

/-- The stage that failed. -/
def stage : Failure → Stage
  | lex _ => .lex
  | parse _ => .parse
  | runtime _ => .runtime

/-- The message, behind its position where it has one. -/
def message : Failure → String
  | lex (.error error) => error.message
  | parse (.error error) => error.message
  | runtime (.error error) => error.message
  | lex .tooDeep => tooDeepMessage
  | parse .tooDeep => tooDeepMessage
  | runtime .tooDeep => tooDeepMessage

/-- The line that reports the failure. -/
def report (failure : Failure) : String :=
  failure.stage.name ++ " error: " ++ failure.message

end Failure

end Reckoner
