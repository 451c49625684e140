import Reckoner.Position
import Reckoner.Text.Quoted

/-!
Tokens, the words of the language. The parentheses and commas of a function header are
not among them: a header is its name, its parameters and the arrow behind them.
-/

set_option autoImplicit false
set_option relaxedAutoImplicit false

namespace Reckoner

/-- What a token is. -/
inductive TokenKind where
  /-- A numeric literal, with its sign if it has one. -/
  | number
  /-- A string literal, whose text leaves out the quotes. -/
  | string
  | identifier
  /-- The name in a function header. -/
  | functionName
  /-- A parameter name in a function header. -/
  | parameter
  /-- One of `+ - * / ^ = ! % .`. -/
  | operator
  /-- One of `== != < > <= >=`. -/
  | comparison
  /-- The arrow `=>` or its word. -/
  | doubleArrow
  /-- The arrow `->` or its word. -/
  | singleArrow
  | comma
  | colon
  | leftBrace
  | leftParen
  | leftBracket
  | rightBrace
  | rightParen
  | rightBracket
  | semicolon
  | constWord
  | elseWord
  | functionWord
  | ifWord
  | inWord
  | letWord
  | printWord
  | thenWord
  /-- The end of the source. -/
  | eof
  deriving DecidableEq, Repr

namespace TokenKind

/-- The name of the kind in messages. -/
def name : TokenKind → String
  | number => "NUMBER"
  | string => "STR_LIT"
  | identifier => "IDENTIFIER"
  | functionName => "FN_IDENTIFIER"
  | parameter => "PARAMETER"
  | operator => "OPERATOR"
  | comparison => "COMPARISON"
  | doubleArrow => "FLINQ"
  | singleArrow => "LLINQ"
  | comma => "COMMA"
  | colon => "COLON"
  | leftBrace => "LEFT_BRACE"
  | leftParen => "LEFT_PAREN"
  | leftBracket => "LEFT_SQUARE_BRACKET"
  | rightBrace => "RIGHT_BRACE"
  | rightParen => "RIGHT_PAREN"
  | rightBracket => "RIGHT_SQUARE_BRACKET"
  | semicolon => "SEMICOLON"
  | constWord => "CONST"
  | elseWord => "ELSE"
  | functionWord => "FUNCTION"
  | ifWord => "IF"
  | inWord => "IN"
  | letWord => "LET"
  | printWord => "PRINT"
  | thenWord => "THEN"
  | eof => "EOF"

/-- All kinds. -/
def all : List TokenKind :=
  [number, string, identifier, functionName, parameter, operator, comparison, doubleArrow,
    singleArrow, comma, colon, leftBrace, leftParen, leftBracket, rightBrace, rightParen,
    rightBracket, semicolon, constWord, elseWord, functionWord, ifWord, inWord, letWord,
    printWord, thenWord, eof]

/-- The kind of the given name. -/
def ofName? (name : String) : Option TokenKind :=
  all.find? (·.name == name)

theorem mem_all (kind : TokenKind) : kind ∈ all := by
  cases kind <;> decide

/-- The kind of a word: keywords have kinds of their own, all other words are identifiers. -/
def ofWord (word : String) : TokenKind :=
  match word with
  | "const" => constWord
  | "else" => elseWord
  | "flinq" => doubleArrow
  | "function" => functionWord
  | "if" => ifWord
  | "in" => inWord
  | "let" => letWord
  | "llinq" => singleArrow
  | "print" => printWord
  | "then" => thenWord
  | _ => identifier

/-- The kind of a character that is a token by itself and begins no other. -/
def ofPunctuation? : Char → Option TokenKind
  | ',' => some comma
  | ':' => some colon
  | '{' => some leftBrace
  | '}' => some rightBrace
  | '(' => some leftParen
  | ')' => some rightParen
  | '[' => some leftBracket
  | ']' => some rightBracket
  | ';' => some semicolon
  | _ => none

/-- The kind of two characters that form one token. -/
def ofPair? : Char → Char → Option TokenKind
  | '=', '>' => some doubleArrow
  | '-', '>' => some singleArrow
  | '=', '=' => some comparison
  | '!', '=' => some comparison
  | '>', '=' => some comparison
  | '<', '=' => some comparison
  | _, _ => none

/-- The kind of a character that is an operator when it begins no pair. -/
def ofOperator? : Char → Option TokenKind
  | '+' => some operator
  | '-' => some operator
  | '*' => some operator
  | '/' => some operator
  | '^' => some operator
  | '=' => some operator
  | '!' => some operator
  | '%' => some operator
  | '.' => some operator
  | '<' => some comparison
  | '>' => some comparison
  | _ => none

/-- Whether a token of this kind can end an operand. A minus sign behind one is a
subtraction, even directly before a digit. -/
def endsOperand : TokenKind → Bool
  | number => true
  | string => true
  | identifier => true
  | rightParen => true
  | rightBrace => true
  | rightBracket => true
  | _ => false

end TokenKind

/-- A token with its text and the position of its first character. -/
structure Token where
  kind : TokenKind
  text : String
  pos : Pos
  deriving DecidableEq, Repr

namespace Token

/-- A token as it is shown: kind, quoted text and position. -/
def render (token : Token) : String :=
  "<" ++ token.kind.name ++ ": " ++ Text.quoted token.text ++ " at " ++ token.pos.text ++ ">"

/-- A row of tokens as it is shown. -/
def renderAll (tokens : List Token) : String :=
  " ".intercalate (tokens.map render)

end Token

end Reckoner
