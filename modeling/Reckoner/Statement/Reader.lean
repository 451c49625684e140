import Reckoner.Declarations
import Reckoner.Fault
import Reckoner.Statement.Error

/-!
Reading tokens from front to back. A reader takes tokens off the front and stages the
declarations it comes upon; a reader that fails leaves nothing behind. Where no token is
left, an end mark is read. Rows of items and of operations are read under a bound, the
tokens left at their start: every round takes at least one of them.
-/

set_option autoImplicit false
set_option relaxedAutoImplicit false

namespace Reckoner

/-- The unread tokens and the declarations read so far, in the order of their completion. -/
structure TokenRow where
  rest : List Token
  staged : List Declaration

/-- A reader of tokens. -/
abbrev Reader := StateT TokenRow (Except (Fault ParseError))

namespace Reader

/-- Fails at a token. -/
def fail {α : Type} (cause : ParseError.Cause) (token : Token) : Reader α :=
  throw (.error ⟨cause, token⟩)

/-- The next token, which stays unread. -/
def peek : Reader Token := do
  return (← get).rest.headD ⟨.eof, "", .unknown⟩

/-- Passes over the next token. -/
def skip : Reader Unit :=
  modify fun row ↦ { row with rest := row.rest.tail }

/-- Takes the next token. -/
def next : Reader Token := do
  let token ← peek
  skip
  return token

/-- Takes the next token if it is of the given kind, and says whether it was. -/
def accept (kind : TokenKind) : Reader Bool := do
  if (← peek).kind = kind then
    skip
    return true
  else
    return false

/-- Takes the next token, which must be of the given kind. -/
def expect (kind : TokenKind) : Reader Token := do
  let token ← next
  if token.kind = kind then return token else fail (.expected kind) token

/-- Takes the next token, which must be an equals sign. -/
def expectEquals : Reader Unit := do
  let token ← next
  if token.kind = .operator ∧ token.text = "=" then return () else fail .expectedEquals token

/-- Stages a declaration. -/
def stage (declaration : Declaration) : Reader Unit :=
  modify fun row ↦ { row with staged := row.staged ++ [declaration] }

/-- Reads items up to the closing token, with commas between them. The flag says whether an
item has been read before. -/
def itemsWithin {α : Type} (close : TokenKind) (item : Reader α) :
    List Token → Bool → Reader (List α)
  | [], _ => do
    let _ ← expect close
    return []
  | _ :: bound, started => do
    if ← accept close then
      return []
    else
      if started then
        let _ ← expect .comma
      let first ← item
      let others ← itemsWithin close item bound true
      return first :: others

/-- Reads items with commas between them, and the token that closes them. -/
def items {α : Type} (close : TokenKind) (item : Reader α) : Reader (List α) := do
  itemsWithin close item (← get).rest false

/-- Takes the next token if it is one of the given operators. -/
def acceptOperator (isOne : Operator → Bool) : Reader (Option Token) := do
  let token ← peek
  if token.kind = .operator ∧ isOne (.ofText token.text) then
    skip
    return some token
  else
    return none

/-- Reads operations on what has been read so far, each of them applying to all before it. -/
def operationsWithin (isOne : Operator → Bool) (operand : Reader Expr) :
    List Token → Expr → Reader Expr
  | [], left => return left
  | _ :: bound, left => do
    match ← acceptOperator isOne with
    | none => return left
    | some token =>
      let right ← operand
      operationsWithin isOne operand bound (.binary token.pos (.ofText token.text) left right)

/-- Reads operands with operators between them, grouped from the left. -/
def operations (isOne : Operator → Bool) (operand : Reader Expr) : Reader Expr := do
  let first ← operand
  operationsWithin isOne operand (← get).rest first

end Reader

end Reckoner
