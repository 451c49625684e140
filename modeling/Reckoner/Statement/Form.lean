import Reckoner.Number.Reading
import Reckoner.Statement.Reader

/-!
The forms that an operand can have, given a reader of the expressions inside them. Calls
are resolved as they are read: built-in functions first, then the declared ones and the
function whose body is being read.
-/

set_option autoImplicit false
set_option relaxedAutoImplicit false

namespace Reckoner

/-- What names mean while an expression is read. -/
structure Scope where
  declarations : Declarations
  /-- The innermost function whose body is being read. -/
  declaring : Option String

namespace Reader

/-- Reads a call behind its name, with the parenthesis next. -/
def call (expr : Reader Expr) (scope : Scope) (name : Token) : Reader Expr := do
  skip
  let args ← items .rightParen expr
  if scope.declarations.builtins.contains name.text then
    return .builtinCall name.pos name.text args
  else if scope.declarations.isFunction name.text ∨ scope.declaring = some name.text then
    return .userCall name.pos name.text args
  else
    fail .undefinedFunction name

/-- Reads a name with the expression bound to it. -/
def binding (expr : Reader Expr) : Reader (String × Expr) := do
  let name ← expect .identifier
  expectEquals
  let value ← expr
  return (name.text, value)

/-- Reads a binding or a group of bindings behind the word `let` at `pos`, and the body. -/
def letForm (expr : Reader Expr) (pos : Pos) : Reader Expr := do
  if ← accept .singleArrow then
    let _ ← expect .leftBrace
    let bindings ← items .rightBrace (binding expr)
    let _ ← expect .inWord
    let body ← expr
    return .letGroup pos bindings body
  else
    let (name, value) ← binding expr
    let _ ← expect .inWord
    let body ← expr
    return .letIn pos name value body

/-- Reads a condition and both branches behind the word `if` at `pos`. -/
def ifForm (expr : Reader Expr) (pos : Pos) : Reader Expr := do
  let _ ← expect .leftParen
  let left ← expr
  let comparison ← expect .comparison
  let right ← expr
  let _ ← expect .rightParen
  let _ ← expect .thenWord
  let thenBranch ← expr
  let _ ← expect .elseWord
  let elseBranch ← expr
  return .ifThenElse pos (.binary comparison.pos (.ofText comparison.text) left right)
    thenBranch elseBranch

/-- The first token whose text is among the given names or has come before. -/
def firstRepeated? : List String → List Token → Option Token
  | _, [] => none
  | names, token :: rest =>
    if names.contains token.text then some token else firstRepeated? (token.text :: names) rest

/-- Reads the parameters of a function; their names differ. -/
def parameters (function : String) : Reader (List String) := do
  let row ← get
  let tokens := row.rest.takeWhile (·.kind = TokenKind.parameter)
  match firstRepeated? [] tokens with
  | some token => fail (.duplicateParameter function) token
  | none =>
    set { row with rest := row.rest.dropWhile (·.kind = TokenKind.parameter) }
    return tokens.map (·.text)

/-- Reads a function declaration behind the word `function` at `pos`. The function may call
itself; it is staged when its body has been read. -/
def functionForm (expr : Scope → Reader Expr) (scope : Scope) (pos : Pos) : Reader Expr := do
  let name ← expect .functionName
  let row ← get
  if scope.declarations.isFunction name.text ∨
      row.staged.any (·.declaresFunction name.text) then
    fail .functionExists name
  else
    let parameters ← parameters name.text
    let _ ← expect .doubleArrow
    let body ← expr { scope with declaring := some name.text }
    stage (.function ⟨pos, name.text, parameters, body⟩)
    return .endMarker pos

/-- Reads a constant declaration behind the word `const` at `pos`. -/
def constForm (expr : Reader Expr) (pos : Pos) : Reader Expr := do
  let (name, value) ← binding expr
  stage (.constant name value)
  return .endMarker pos

/-- Reads a print behind the word `print` at `pos`. Its expression is checked and dropped. -/
def printForm (expr : Reader Expr) (pos : Pos) : Reader Expr := do
  let _ ← expect .leftParen
  let _ ← expr
  let _ ← expect .rightParen
  return .endMarker pos

/-- Reads an operand. The second reader is for what stands behind a minus sign. -/
def operand (expr : Scope → Reader Expr) (negated : Reader Expr) (scope : Scope) :
    Reader Expr := do
  let token ← next
  match token.kind with
  | .leftParen =>
    let inner ← expr scope
    let _ ← expect .rightParen
    return inner
  | .operator =>
    if token.text = "-" then
      let right ← negated
      return .binary token.pos .sub (.literal token.pos (.number 0.0)) right
    else
      fail .noExpression token
  | .number =>
    match Number.read? token.text with
    | some x => return .literal token.pos (.number x)
    | none => fail .invalidNumber token
  | .string => return .literal token.pos (.text token.text)
  | .identifier =>
    if (← peek).kind = .leftParen then call (expr scope) scope token
    else return .access token.pos token.text
  | .letWord => letForm (expr scope) token.pos
  | .ifWord => ifForm (expr scope) token.pos
  | .functionWord => functionForm expr scope token.pos
  | .constWord => constForm (expr scope) token.pos
  | .printWord => printForm (expr scope) token.pos
  | _ => fail .noExpression token

end Reader

end Reckoner
