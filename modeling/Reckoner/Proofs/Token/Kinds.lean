import Reckoner.Proofs.Token.Ending
import Reckoner.Proofs.Token.WellWritten

/-!
Which kinds of tokens come from where. Names in a header and the end mark are no lexemes: the
names come from reading headers alone, and the end mark stands behind all other tokens.
-/

set_option autoImplicit false
set_option relaxedAutoImplicit false

namespace Reckoner

/-- Whether tokens of the kind are lexemes that are written as their text is. -/
def TokenKind.IsPlain (kind : TokenKind) : Prop :=
  kind ≠ .string ∧ kind ≠ .functionName ∧ kind ≠ .parameter ∧ kind ≠ .eof

instance : DecidablePred TokenKind.IsPlain :=
  fun _ ↦ inferInstanceAs (Decidable (_ ∧ _ ∧ _ ∧ _))

namespace TokenKind

theorem isPlain_ofWord (word : String) : (ofWord word).IsPlain := by
  unfold ofWord
  split <;> decide

theorem isPlain_ofPunctuation? {c : Char} {kind : TokenKind}
    (h : ofPunctuation? c = some kind) : kind.IsPlain := by
  unfold ofPunctuation? at h
  split at h <;> cases h <;> decide

theorem isPlain_ofPair? {c d : Char} {kind : TokenKind} (h : ofPair? c d = some kind) :
    kind.IsPlain := by
  unfold ofPair? at h
  split at h <;> cases h <;> decide

theorem isPlain_ofOperator? {c : Char} {kind : TokenKind} (h : ofOperator? c = some kind) :
    kind.IsPlain := by
  unfold ofOperator? at h
  split at h <;> cases h <;> decide

end TokenKind

namespace Lexeme

/-- A lexeme that is written as its text is. -/
def IsPlain (lexeme : Lexeme) : Prop :=
  lexeme.kind.IsPlain ∧ lexeme.span = lexeme.text

theorem isPlain_plain {kind : TokenKind} (h : kind.IsPlain) (span : List Char) :
    (plain kind span).IsPlain :=
  ⟨h, rfl⟩

theorem isPlain_symbol? {c : Char} {rest : List Char} {lexeme : Lexeme}
    (h : symbol? c rest = some lexeme) : lexeme.IsPlain := by
  unfold symbol? at h
  split at h
  · next pair hpair =>
    cases h
    obtain ⟨d, -, hd⟩ := Option.bind_eq_some_iff.mp hpair
    obtain ⟨kind, hkind, rfl⟩ := Option.map_eq_some_iff.mp hd
    exact isPlain_plain (TokenKind.isPlain_ofPair? hkind) _
  · obtain ⟨kind, hkind, rfl⟩ := Option.map_eq_some_iff.mp h
    exact isPlain_plain (TokenKind.isPlain_ofOperator? hkind) _

/-- Every lexeme is plain but the string literals, which have quotes around their text. -/
theorem isPlain_or_quoted {afterOperand : Bool} {c : Char} {rest : List Char} {lexeme : Lexeme}
    (h : read afterOperand c rest = .ok lexeme) :
    lexeme.IsPlain ∨ ∃ body, '"' ∉ body ∧ lexeme = quoted body := by
  unfold read at h
  split at h
  · cases h
    exact .inl (isPlain_plain (TokenKind.isPlain_ofWord _) _)
  · split at h
    · cases h
      exact .inl (isPlain_plain (by decide) _)
    · split at h
      · split at h
        · next hstring =>
          cases h
          obtain ⟨body, behind, hbody, -, rfl⟩ := string?_eq_some hstring
          exact .inr ⟨body, hbody, rfl⟩
        · cases h
      · split at h
        · next hpunctuation =>
          cases h
          exact .inl (isPlain_plain (TokenKind.isPlain_ofPunctuation? hpunctuation) _)
        · split at h
          · cases h
            exact .inl (isPlain_plain (by decide) _)
          · split at h
            · next hsymbol =>
              cases h
              exact .inl (isPlain_symbol? hsymbol)
            · cases h

theorem kind_ne_eof {afterOperand : Bool} {c : Char} {rest : List Char} {lexeme : Lexeme}
    (h : read afterOperand c rest = .ok lexeme) : lexeme.kind ≠ .eof := by
  rcases isPlain_or_quoted h with hplain | ⟨body, -, rfl⟩
  · exact hplain.1.2.2.2
  · exact nofun

end Lexeme

namespace Scan

theorem kind_ne_eof_step {limit : Nat} {opens : List OpenPrint} {afterOperand : Bool}
    {here : Cursor} {c : Char} {rest : List Char} {found : Step}
    (h : step limit opens afterOperand here c rest = .ok found) :
    ∀ token ∈ found.tokens, token.kind ≠ .eof := by
  refine forall_step (fun hread _ ↦ Lexeme.kind_ne_eof hread) (fun token hextra heof ↦ ?_) h
  rw [heof] at hextra
  rcases hextra with hkind | hkind | hkind | hkind <;> cases hkind

/-- The last token of a scan is an end mark, and no other is. -/
theorem exists_tokens_eq {limit : Nat} {opens : List OpenPrint} {afterOperand : Bool}
    {here : Cursor} {found : List Token} (h : tokens limit opens afterOperand here = .ok found) :
    ∃ body pos, found = body ++ [⟨.eof, "", pos⟩] ∧ ∀ token ∈ body, token.kind ≠ .eof := by
  fun_induction tokens limit opens afterOperand here generalizing found with
  | case1 =>
    cases h
    exact ⟨[], _, rfl, List.forall_mem_nil _⟩
  | case2 => cases h
  | case3 => cases h
  | case4 opens afterOperand here start c rest hrest step hstep =>
    rename_i ih
    obtain ⟨more, hmore, rfl⟩ := exists_of_map_eq_ok h
    obtain ⟨body, pos, rfl, hbody⟩ := ih hmore
    exact ⟨step.tokens ++ body, pos, (List.append_assoc _ _ _).symm,
      List.forall_mem_append.mpr ⟨kind_ne_eof_step hstep, hbody⟩⟩

end Scan

end Reckoner
