import Reckoner.Text.Digit
import Reckoner.Token
import Reckoner.Token.Cursor
import Reckoner.Token.Error

/-!
Lexemes: what one token takes up of the source. Which lexeme starts at a character depends
on the text from there on and, for a minus sign, on whether an operand has just ended.
-/

set_option autoImplicit false
set_option relaxedAutoImplicit false

namespace Reckoner

open Text

/-- A token before it has a position. The span is the piece of source it is read from, which
differs from its text where the source has quotes. -/
structure Lexeme where
  kind : TokenKind
  text : List Char
  span : List Char
  deriving DecidableEq, Repr

namespace Lexeme

/-- The token that the lexeme is at a position. -/
def token (lexeme : Lexeme) (pos : Pos) : Token :=
  ⟨lexeme.kind, String.ofList lexeme.text, pos⟩

/-- A lexeme whose text is its span. -/
def plain (kind : TokenKind) (span : List Char) : Lexeme :=
  ⟨kind, span, span⟩

/-- The longest word at the front of the text. -/
def word (source : List Char) : List Char :=
  source.takeWhile isWordChar

/-- The longest numeral without a sign at the front of the text. Digits behind the point may
be missing. -/
def numeral (source : List Char) : List Char :=
  let whole := source.takeWhile isDecimal
  match source.dropWhile isDecimal with
  | '.' :: rest => whole ++ '.' :: rest.takeWhile isDecimal
  | _ => whole

/-- Whether a numeral starts here. -/
def startsNumeral : List Char → Bool
  | c :: _ => isDecimal c
  | [] => false

/-- The string literal behind an opening quote. It ends at the next quote, whatever stands
between. -/
def string? (rest : List Char) : Option Lexeme :=
  let body := rest.takeWhile (· ≠ '"')
  if rest.drop body.length = [] then none else some ⟨.string, body, '"' :: (body ++ ['"'])⟩

/-- The pair at the front of the text, or else the operator. -/
def symbol? (c : Char) (rest : List Char) : Option Lexeme :=
  match rest.head?.bind fun d ↦ (TokenKind.ofPair? c d).map fun kind ↦ plain kind [c, d] with
  | some pair => some pair
  | none => (TokenKind.ofOperator? c).map fun kind ↦ plain kind [c]

/-- The lexeme that starts with the character `c`. -/
def read (afterOperand : Bool) (c : Char) (rest : List Char) : Except LexError.Cause Lexeme :=
  if isLetter c then
    let text := word (c :: rest)
    .ok (plain (.ofWord (String.ofList text)) text)
  else if isDecimal c then .ok (plain .number (numeral (c :: rest)))
  else if c = '"' then
    match string? rest with
    | some lexeme => .ok lexeme
    | none => .error .unterminatedString
  else
    match TokenKind.ofPunctuation? c with
    | some kind => .ok (plain kind [c])
    | none =>
      if c = '-' ∧ startsNumeral rest ∧ ¬ afterOperand then
        .ok (plain .number (c :: numeral rest))
      else
        match symbol? c rest with
        | some lexeme => .ok lexeme
        | none => .error (.invalidCharacter c)

theorem numeral_ne_nil {c : Char} (rest : List Char) (h : isDecimal c = true) :
    numeral (c :: rest) ≠ [] := by
  unfold numeral
  dsimp only
  split <;> simp [h]

/-- A lexeme takes up at least one character. -/
theorem span_ne_nil {afterOperand : Bool} {c : Char} {rest : List Char} {lexeme : Lexeme}
    (h : read afterOperand c rest = .ok lexeme) : lexeme.span ≠ [] := by
  unfold read at h
  split at h
  · next hc =>
    cases h
    simp [plain, word, isWordChar_of_isLetter c hc]
  · split at h
    · next hc =>
      cases h
      exact numeral_ne_nil rest hc
    · split at h
      · cases hs : string? rest with
        | none => simp [hs] at h
        | some found =>
          simp only [hs] at h
          cases h
          unfold string? at hs
          dsimp only at hs
          split at hs
          · cases hs
          · cases hs
            simp
      · split at h
        · cases h
          simp [plain]
        · split at h
          · cases h
            simp [plain]
          · cases hs : symbol? c rest with
            | none => simp [hs] at h
            | some found =>
              simp only [hs] at h
              cases h
              unfold symbol? at hs
              split at hs
              · next pair hp =>
                cases hs
                obtain ⟨d, _, hd⟩ := Option.bind_eq_some_iff.mp hp
                obtain ⟨kind, _, rfl⟩ := Option.map_eq_some_iff.mp hd
                simp [plain]
              · obtain ⟨kind, _, rfl⟩ := Option.map_eq_some_iff.mp hs
                simp [plain]

end Lexeme

end Reckoner
