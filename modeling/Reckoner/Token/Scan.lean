import Reckoner.Fault
import Reckoner.Token.Header

/-!
Cutting a source text into tokens. Two words bring more with them than themselves: behind
`function` a header is read at once, and behind `print` an opening parenthesis must follow
whose partner closes the print. The scan keeps the prints that are still open, innermost
first; their number is the nesting that the limit bounds.
-/

set_option autoImplicit false
set_option relaxedAutoImplicit false

namespace Reckoner

open Text

namespace Scan

/-- A print whose closing parenthesis is still to come. -/
structure OpenPrint where
  /-- The position of its opening parenthesis. -/
  pos : Pos
  /-- How many parentheses are open from that one on. -/
  depth : Nat
  deriving DecidableEq, Repr

/-- The open prints behind a token of the given kind. A parenthesis belongs to the innermost
print, which ends when none of its parentheses is open any more. -/
def track (opens : List OpenPrint) (kind : TokenKind) : List OpenPrint :=
  match opens with
  | [] => []
  | innermost :: outer =>
    match kind with
    | .leftParen => ⟨innermost.pos, innermost.depth + 1⟩ :: outer
    | .rightParen =>
      if innermost.depth ≤ 1 then outer else ⟨innermost.pos, innermost.depth - 1⟩ :: outer
    | _ => opens

/-- What one step of the scan reads, and how the scan goes on. -/
structure Step where
  tokens : List Token
  opens : List OpenPrint
  afterOperand : Bool
  next : Cursor

/-- Reads the parenthesis that opens a print. -/
def printParen (here : Cursor) : Except LexError (Token × Cursor) :=
  let start := here.skipBlanks
  match start.rest with
  | '(' :: _ => .ok (⟨.leftParen, "(", start.pos⟩, start.skip ['('])
  | _ => .error ⟨.missingPrintParen, start.pos⟩

/-- Reads the token that starts with the character `c` at the cursor, and what that token
brings with it. -/
def step (limit : Nat) (opens : List OpenPrint) (afterOperand : Bool) (here : Cursor)
    (c : Char) (rest : List Char) : Except (Fault LexError) Step :=
  match Lexeme.read afterOperand c rest with
  | .error cause => .error (.error ⟨cause, here.pos⟩)
  | .ok lexeme =>
    let token := lexeme.token here.pos
    let behind := here.skip lexeme.span
    match lexeme.kind with
    | .functionWord =>
      match Header.read behind with
      | .error error => .error (.error error)
      | .ok (header, next) => .ok ⟨token :: header, opens, false, next⟩
    | .printWord =>
      match printParen behind with
      | .error error => .error (.error error)
      | .ok (paren, next) =>
        if limit ≤ opens.length then .error .tooDeep
        else .ok ⟨[token, paren], ⟨paren.pos, 1⟩ :: opens, false, next⟩
    | kind => .ok ⟨[token], track opens kind, kind.endsOperand, behind⟩

/-- A step reads a lexeme by itself, the word `function` with a header, or `print` with its
parenthesis. -/
theorem step_eq_ok_iff {limit : Nat} {opens : List OpenPrint} {afterOperand : Bool} {here : Cursor}
    {c : Char} {rest : List Char} {found : Step} :
    step limit opens afterOperand here c rest = .ok found ↔ ∃ lexeme,
      Lexeme.read afterOperand c rest = .ok lexeme ∧
      (lexeme.kind ≠ .functionWord ∧ lexeme.kind ≠ .printWord ∧
          found = ⟨[lexeme.token here.pos], track opens lexeme.kind, lexeme.kind.endsOperand,
            here.skip lexeme.span⟩ ∨
        lexeme.kind = .functionWord ∧ (∃ header next,
          Header.read (here.skip lexeme.span) = .ok (header, next) ∧
            found = ⟨lexeme.token here.pos :: header, opens, false, next⟩) ∨
        lexeme.kind = .printWord ∧ opens.length < limit ∧ ∃ paren next,
          printParen (here.skip lexeme.span) = .ok (paren, next) ∧
            found = ⟨[lexeme.token here.pos, paren], ⟨paren.pos, 1⟩ :: opens, false, next⟩) := by
  unfold step
  cases hread : Lexeme.read afterOperand c rest with
  | error cause => simp
  | ok lexeme =>
    dsimp only
    constructor
    · intro h
      refine ⟨lexeme, rfl, ?_⟩
      split at h
      · next hkind =>
        cases hheader : Header.read (here.skip lexeme.span) with
        | error error => rw [hheader] at h; cases h
        | ok read =>
          rw [hheader] at h
          cases h
          exact .inr (.inl ⟨hkind, _, _, rfl, rfl⟩)
      · next hkind =>
        cases hparen : printParen (here.skip lexeme.span) with
        | error error => rw [hparen] at h; cases h
        | ok read =>
          rw [hparen] at h
          dsimp only at h
          split at h
          · cases h
          · next hlimit =>
            cases h
            exact .inr (.inr ⟨hkind, Nat.lt_of_not_le hlimit, _, _, rfl, rfl⟩)
      · next hfunction hprint =>
        cases h
        exact .inl ⟨hfunction, hprint, rfl⟩
    · rintro ⟨_, ⟨⟩, ⟨hfunction, hprint, rfl⟩ | ⟨hkind, header, next, hheader, rfl⟩ |
        ⟨hkind, hlimit, paren, next, hparen, rfl⟩⟩
      · split <;> first | contradiction | rfl
      · rw [hkind, hheader]
      · rw [hkind, hparen]
        dsimp only
        rw [if_neg (Nat.not_le.mpr hlimit)]

theorem length_printParen {here behind : Cursor} {token : Token}
    (h : printParen here = .ok (token, behind)) : behind.rest.length ≤ here.rest.length := by
  have hstart := Cursor.length_skipBlanks here
  unfold printParen at h
  dsimp only at h
  split at h
  · cases h
    rw [Cursor.length_skip]
    omega
  · cases h

/-- Every step moves on by at least one character. -/
theorem length_step {limit : Nat} {opens : List OpenPrint} {afterOperand : Bool} {here : Cursor}
    {c : Char} {rest : List Char} {found : Step} (hrest : here.rest = c :: rest)
    (h : step limit opens afterOperand here c rest = .ok found) :
    found.next.rest.length < here.rest.length := by
  obtain ⟨lexeme, hlexeme, hfound⟩ := step_eq_ok_iff.mp h
  have hspan := List.length_pos_iff.mpr (Lexeme.span_ne_nil hlexeme)
  have hbehind : (here.skip lexeme.span).rest.length < here.rest.length := by
    rw [Cursor.length_skip, hrest, List.length_cons]
    omega
  rcases hfound with ⟨-, -, rfl⟩ | ⟨-, header, next, hheader, rfl⟩ |
    ⟨-, -, paren, next, hparen, rfl⟩
  · exact hbehind
  · exact Nat.lt_of_le_of_lt (Header.length_read hheader) hbehind
  · exact Nat.lt_of_le_of_lt (length_printParen hparen) hbehind

/-- Reads all tokens from the cursor on, the last one marking the end. -/
def tokens (limit : Nat) (opens : List OpenPrint) (afterOperand : Bool) (here : Cursor) :
    Except (Fault LexError) (List Token) :=
  let start := here.skipLayout
  match _hrest : start.rest with
  | [] =>
    match opens with
    | [] => .ok [⟨.eof, "", start.pos⟩]
    | innermost :: _ => .error (.error ⟨.unclosedPrint, innermost.pos⟩)
  | c :: rest =>
    match _hstep : step limit opens afterOperand start c rest with
    | .error fault => .error fault
    | .ok found =>
      (tokens limit found.opens found.afterOperand found.next).map (found.tokens ++ ·)
  termination_by here.rest.length
  decreasing_by
    exact Nat.lt_of_lt_of_le (length_step _hrest _hstep) (Cursor.length_skipLayout here)

theorem tokens_eq (limit : Nat) (opens : List OpenPrint) (afterOperand : Bool) (here : Cursor) :
    tokens limit opens afterOperand here =
      match here.skipLayout.rest with
      | [] =>
        match opens with
        | [] => .ok [⟨.eof, "", here.skipLayout.pos⟩]
        | innermost :: _ => .error (.error ⟨.unclosedPrint, innermost.pos⟩)
      | c :: rest =>
        match step limit opens afterOperand here.skipLayout c rest with
        | .error fault => .error fault
        | .ok found =>
          (tokens limit found.opens found.afterOperand found.next).map (found.tokens ++ ·) := by
  rw [tokens.eq_def]
  dsimp only
  split
  · next hrest =>
    rw [hrest]
  · next c rest hrest =>
    rw [hrest]
    dsimp only
    split
    · next hstep => rw [hstep]
    · next hstep => rw [hstep]

end Scan

/-- The tokens of a source text, the last one marking its end. At most `limit` prints may be
open at once. -/
def tokenize (limit : Nat) (source : String) : Except (Fault LexError) (List Token) :=
  Scan.tokens limit [] false (.ofText source)

end Reckoner
