import Reckoner.Proofs.Expr.Nodes
import Reckoner.Proofs.Token.Numeral
import Reckoner.Token.Scan

/-!
What the scan promises of its tokens: the text of a number token is that of a number, and a
comparison token is written as a comparison.
-/

set_option autoImplicit false
set_option relaxedAutoImplicit false

namespace Reckoner

/-- Whether the text of the token is as its kind says, for numbers and comparisons. -/
structure Token.WellWritten (token : Token) : Prop where
  number : token.kind = .number → (Number.read? token.text).isSome = true
  comparison : token.kind = .comparison → (Operator.ofText token.text).compares = true

/-- A token of any other kind may have any text. -/
theorem Token.wellWritten_of_kind {token : Token} {kind : TokenKind} (hkind : token.kind = kind)
    (h : kind ≠ .number ∧ kind ≠ .comparison) : token.WellWritten := by
  subst hkind
  exact ⟨fun hnumber ↦ absurd hnumber h.1, fun hcomparison ↦ absurd hcomparison h.2⟩

theorem Token.wellWritten_mk {kind : TokenKind} (h : kind ≠ .number ∧ kind ≠ .comparison)
    (text : String) (pos : Pos) : (Token.mk kind text pos).WellWritten :=
  wellWritten_of_kind rfl h

theorem Token.wellWritten_comparison {text : String}
    (h : (Operator.ofText text).compares = true) (pos : Pos) :
    (Token.mk .comparison text pos).WellWritten :=
  ⟨nofun, fun _ ↦ h⟩

namespace TokenKind

theorem ofWord_ne (word : String) : ofWord word ≠ .number ∧ ofWord word ≠ .comparison := by
  unfold ofWord
  split <;> decide

theorem ofPunctuation?_ne {c : Char} {kind : TokenKind} (h : ofPunctuation? c = some kind) :
    kind ≠ .number ∧ kind ≠ .comparison := by
  unfold ofPunctuation? at h
  split at h <;> cases h <;> decide

theorem wellWritten_ofPair? {c d : Char} {kind : TokenKind} (h : ofPair? c d = some kind)
    (pos : Pos) : (Token.mk kind (String.ofList [c, d]) pos).WellWritten := by
  unfold ofPair? at h
  split at h <;> cases h
  · exact Token.wellWritten_mk (by decide) _ _
  · exact Token.wellWritten_mk (by decide) _ _
  all_goals exact Token.wellWritten_comparison (by decide) pos

theorem wellWritten_ofOperator? {c : Char} {kind : TokenKind} (h : ofOperator? c = some kind)
    (pos : Pos) : (Token.mk kind (String.ofList [c]) pos).WellWritten := by
  unfold ofOperator? at h
  split at h <;> cases h
  case h_10 => exact Token.wellWritten_comparison (by decide) pos
  case h_11 => exact Token.wellWritten_comparison (by decide) pos
  all_goals exact Token.wellWritten_mk (by decide) _ _

end TokenKind

namespace Lexeme

open Text Number

theorem wellWritten_symbol? {c : Char} {rest : List Char} {lexeme : Lexeme}
    (h : symbol? c rest = some lexeme) (pos : Pos) : (lexeme.token pos).WellWritten := by
  unfold symbol? at h
  split at h
  · next pair hpair =>
    cases h
    obtain ⟨d, -, hd⟩ := Option.bind_eq_some_iff.mp hpair
    obtain ⟨kind, hkind, rfl⟩ := Option.map_eq_some_iff.mp hd
    exact TokenKind.wellWritten_ofPair? hkind pos
  · obtain ⟨kind, hkind, rfl⟩ := Option.map_eq_some_iff.mp h
    exact TokenKind.wellWritten_ofOperator? hkind pos

/-- A numeral, with a minus sign in front of it or none, is the text of a number. -/
theorem wellWritten_numeral {source sign : List Char} (h : startsNumeral source = true)
    (hsign : sign = [] ∨ sign = ['-']) (pos : Pos) :
    ((plain .number (sign ++ numeral source)).token pos).WellWritten := by
  refine ⟨fun _ ↦ isSome_read? ⟨sign, (numeral source).map plainChar, ?_, hsign,
    isNumeral_numeral h⟩, nofun⟩
  change (String.ofList (sign ++ numeral source)).toList.map plainChar = _
  rw [String.toList_ofList, List.map_append]
  rcases hsign with rfl | rfl <;> rfl

theorem wellWritten_read {afterOperand : Bool} {c : Char} {rest : List Char} {lexeme : Lexeme}
    (h : read afterOperand c rest = .ok lexeme) (pos : Pos) :
    (lexeme.token pos).WellWritten := by
  unfold read at h
  split at h
  · cases h
    exact Token.wellWritten_mk (TokenKind.ofWord_ne _) _ _
  · split at h
    · next hdecimal =>
      cases h
      have hstart : startsNumeral (c :: rest) = true := hdecimal
      exact wellWritten_numeral hstart (.inl rfl) pos
    · split at h
      · split at h
        · next hstring =>
          cases h
          unfold string? at hstring
          dsimp only at hstring
          split at hstring
          · cases hstring
          · cases hstring
            have hkind : TokenKind.string ≠ .number ∧ TokenKind.string ≠ .comparison := by decide
            exact Token.wellWritten_mk hkind _ _
        · cases h
      · split at h
        · next hpunctuation =>
          cases h
          exact Token.wellWritten_mk (TokenKind.ofPunctuation?_ne hpunctuation) _ _
        · split at h
          · next hminus =>
            cases h
            rw [hminus.1]
            exact wellWritten_numeral hminus.2.1 (.inr rfl) pos
          · split at h
            · next hsymbol =>
              cases h
              exact wellWritten_symbol? hsymbol pos
            · cases h

end Lexeme

namespace Header

theorem kind_of_name {kind : TokenKind} {cause : LexError.Cause} {here next : Cursor}
    {token : Token} (h : name kind cause here = .ok (token, next)) : token.kind = kind := by
  unfold name at h
  dsimp only at h
  split at h
  · cases h
  · cases h
    rfl

theorem kind_of_parameters {here behind : Cursor} {tokens : List Token}
    (h : parameters here = .ok (tokens, behind)) : ∀ token ∈ tokens, token.kind = .parameter := by
  fun_induction parameters here generalizing tokens behind with
  | case1 => cases h
  | case2 here token next hname rest hrest =>
    cases h
    exact List.forall_mem_singleton.mpr (kind_of_name hname)
  | case3 here token next hname rest hrest ih =>
    obtain ⟨⟨more, last⟩, hmore, hfound⟩ := exists_of_map_eq_ok h
    obtain ⟨rfl, -⟩ := Prod.mk.inj hfound
    exact List.forall_mem_cons.mpr ⟨kind_of_name hname, ih hmore⟩
  | case4 => cases h

theorem kind_of_parameterList {here behind : Cursor} {tokens : List Token}
    (h : parameterList here = .ok (tokens, behind)) :
    ∀ token ∈ tokens, token.kind = .parameter := by
  unfold parameterList at h
  split at h
  · dsimp only at h
    split at h
    · cases h
      nofun
    · exact kind_of_parameters h
  · cases h

theorem kind_of_arrow {here behind : Cursor} {token : Token}
    (h : arrow here = .ok (token, behind)) : token.kind = .doubleArrow := by
  unfold arrow at h
  dsimp only at h
  split at h
  · cases h
    rfl
  · split at h
    · cases h
      rfl
    · cases h

theorem kinds_of_read {here behind : Cursor} {tokens : List Token}
    (h : read here = .ok (tokens, behind)) : ∀ token ∈ tokens,
      token.kind = .functionName ∨ token.kind = .parameter ∨ token.kind = .doubleArrow := by
  obtain ⟨_, _, _, _, _, hname, hlist, harrow, rfl⟩ := exists_of_read_eq_ok h
  intro token htoken
  rcases List.mem_cons.mp htoken with rfl | htoken
  · exact .inl (kind_of_name hname)
  · rcases List.mem_append.mp htoken with htoken | htoken
    · exact .inr (.inl (kind_of_parameterList hlist token htoken))
    · cases List.mem_singleton.mp htoken
      exact .inr (.inr (kind_of_arrow harrow))

end Header

namespace Scan

theorem kind_of_printParen {here behind : Cursor} {token : Token}
    (h : printParen here = .ok (token, behind)) : token.kind = .leftParen := by
  unfold printParen at h
  dsimp only at h
  split at h
  · cases h
    rfl
  · cases h

/-- Tokens that are no lexemes: those of headers, and the parenthesis behind `print`. -/
def IsExtra (kind : TokenKind) : Prop :=
  kind = .functionName ∨ kind = .parameter ∨ kind = .doubleArrow ∨ kind = .leftParen

variable {property : Token → Prop}

/-- What holds of all that the readers find holds of the tokens of a step. -/
theorem forall_step_of_readers
    (hlexeme : ∀ {afterOperand c rest lexeme}, Lexeme.read afterOperand c rest = .ok lexeme →
      ∀ pos, property (lexeme.token pos))
    (hheader : ∀ {here next : Cursor} {header}, Header.read here = .ok (header, next) →
      ∀ token ∈ header, property token)
    (hparen : ∀ {here next : Cursor} {paren}, printParen here = .ok (paren, next) →
      property paren) {limit : Nat}
    {opens : List OpenPrint} {afterOperand : Bool} {here : Cursor} {c : Char} {rest : List Char}
    {found : Step} (h : step limit opens afterOperand here c rest = .ok found) :
    ∀ token ∈ found.tokens, property token := by
  obtain ⟨lexeme, hread, hfound⟩ := step_eq_ok_iff.mp h
  have htoken := hlexeme hread here.pos
  rcases hfound with ⟨-, -, rfl⟩ | ⟨-, header, next, hread, rfl⟩ |
    ⟨-, -, paren, next, hread, rfl⟩
  · exact List.forall_mem_singleton.mpr htoken
  · exact List.forall_mem_cons.mpr ⟨htoken, hheader hread⟩
  · exact List.forall_mem_cons.mpr ⟨htoken, List.forall_mem_singleton.mpr (hparen hread)⟩

/-- What holds of all that the readers find and of end marks holds of all tokens. -/
theorem forall_tokens_of_readers
    (hlexeme : ∀ {afterOperand c rest lexeme}, Lexeme.read afterOperand c rest = .ok lexeme →
      ∀ pos, property (lexeme.token pos))
    (hheader : ∀ {here next : Cursor} {header}, Header.read here = .ok (header, next) →
      ∀ token ∈ header, property token)
    (hparen : ∀ {here next : Cursor} {paren}, printParen here = .ok (paren, next) →
      property paren)
    (heof : ∀ pos, property ⟨.eof, "", pos⟩) {limit : Nat} {opens : List OpenPrint}
    {afterOperand : Bool} {here : Cursor} {found : List Token}
    (h : tokens limit opens afterOperand here = .ok found) : ∀ token ∈ found, property token := by
  fun_induction tokens limit opens afterOperand here generalizing found with
  | case1 =>
    cases h
    exact List.forall_mem_singleton.mpr (heof _)
  | case2 => cases h
  | case3 => cases h
  | case4 opens afterOperand here start c rest hrest step hstep =>
    rename_i ih
    obtain ⟨more, hmore, rfl⟩ := exists_of_map_eq_ok h
    exact List.forall_mem_append.mpr
      ⟨forall_step_of_readers hlexeme hheader hparen hstep, ih hmore⟩

theorem isExtra_of_header {here next : Cursor} {header : List Token}
    (h : Header.read here = .ok (header, next)) : ∀ token ∈ header, IsExtra token.kind := by
  intro token htoken
  rcases Header.kinds_of_read h token htoken with hkind | hkind | hkind
  · exact .inl hkind
  · exact .inr (.inl hkind)
  · exact .inr (.inr (.inl hkind))

theorem isExtra_of_printParen {here next : Cursor} {paren : Token}
    (h : printParen here = .ok (paren, next)) : IsExtra paren.kind :=
  .inr (.inr (.inr (kind_of_printParen h)))

/-- What holds of lexemes and of the tokens beside them holds of the tokens of a step. -/
theorem forall_step
    (hlexeme : ∀ {afterOperand c rest lexeme}, Lexeme.read afterOperand c rest = .ok lexeme →
      ∀ pos, property (lexeme.token pos))
    (hextra : ∀ token : Token, IsExtra token.kind → property token) {limit : Nat}
    {opens : List OpenPrint} {afterOperand : Bool} {here : Cursor} {c : Char} {rest : List Char}
    {found : Step} (h : step limit opens afterOperand here c rest = .ok found) :
    ∀ token ∈ found.tokens, property token :=
  forall_step_of_readers hlexeme
    (fun hread token htoken ↦ hextra token (isExtra_of_header hread token htoken))
    (fun hread ↦ hextra _ (isExtra_of_printParen hread)) h

/-- What holds of lexemes, of the tokens beside them and of end marks holds of all tokens. -/
theorem forall_tokens
    (hlexeme : ∀ {afterOperand c rest lexeme}, Lexeme.read afterOperand c rest = .ok lexeme →
      ∀ pos, property (lexeme.token pos))
    (hextra : ∀ token : Token, IsExtra token.kind → property token)
    (heof : ∀ pos, property ⟨.eof, "", pos⟩) {limit : Nat} {opens : List OpenPrint}
    {afterOperand : Bool} {here : Cursor} {found : List Token}
    (h : tokens limit opens afterOperand here = .ok found) : ∀ token ∈ found, property token :=
  forall_tokens_of_readers hlexeme
    (fun hread token htoken ↦ hextra token (isExtra_of_header hread token htoken))
    (fun hread ↦ hextra _ (isExtra_of_printParen hread)) heof h

end Scan

theorem Token.wellWritten_of_isExtra {token : Token} (h : Scan.IsExtra token.kind) :
    token.WellWritten := by
  rcases h with hkind | hkind | hkind | hkind
  all_goals exact wellWritten_of_kind hkind (by decide)

/-- All tokens of a source text are well written. -/
theorem wellWritten_tokenize {limit : Nat} {source : String} {tokens : List Token}
    (h : tokenize limit source = .ok tokens) : ∀ token ∈ tokens, token.WellWritten :=
  Scan.forall_tokens Lexeme.wellWritten_read (fun _ ↦ Token.wellWritten_of_isExtra)
    (fun _ ↦ Token.wellWritten_mk (by decide) _ _) h

end Reckoner
