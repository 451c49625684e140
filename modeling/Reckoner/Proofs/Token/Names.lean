import Reckoner.Proofs.Token.Spelling

/-!
What the scan promises of names and strings. The text of an identifier token is a word that is
no keyword, and the text of a string token has no quotes in it.
-/

set_option autoImplicit false
set_option relaxedAutoImplicit false

namespace Reckoner

open Text

/-- Whether the text is a name and no keyword. -/
def IsIdentifier (text : String) : Prop :=
  Header.IsName text.toList ∧ TokenKind.ofWord text = .identifier

/-- Whether the text of the token is as its kind says, for identifiers and strings. -/
structure Token.WellSpelled (token : Token) : Prop where
  identifier : token.kind = .identifier → IsIdentifier token.text
  string : token.kind = .string → '"' ∉ token.text.toList

/-- A token of any other kind may have any text. -/
theorem Token.wellSpelled_of_kind {token : Token} (h : token.kind ≠ .identifier)
    (hstring : token.kind ≠ .string) : token.WellSpelled :=
  ⟨fun hkind ↦ absurd hkind h, fun hkind ↦ absurd hkind hstring⟩

namespace TokenKind

theorem ofPunctuation?_ne_identifier {c : Char} {kind : TokenKind}
    (h : ofPunctuation? c = some kind) : kind ≠ .identifier := by
  unfold ofPunctuation? at h
  split at h <;> cases h <;> decide

theorem ofPair?_ne_identifier {c d : Char} {kind : TokenKind} (h : ofPair? c d = some kind) :
    kind ≠ .identifier := by
  unfold ofPair? at h
  split at h <;> cases h <;> decide

theorem ofOperator?_ne_identifier {c : Char} {kind : TokenKind} (h : ofOperator? c = some kind) :
    kind ≠ .identifier := by
  unfold ofOperator? at h
  split at h <;> cases h <;> decide

end TokenKind

namespace Lexeme

theorem symbol?_ne_identifier {c : Char} {rest : List Char} {lexeme : Lexeme}
    (h : symbol? c rest = some lexeme) : lexeme.kind ≠ .identifier := by
  unfold symbol? at h
  split at h
  · next pair hpair =>
    cases h
    obtain ⟨d, -, hd⟩ := Option.bind_eq_some_iff.mp hpair
    obtain ⟨kind, hkind, rfl⟩ := Option.map_eq_some_iff.mp hd
    exact TokenKind.ofPair?_ne_identifier hkind
  · obtain ⟨kind, hkind, rfl⟩ := Option.map_eq_some_iff.mp h
    exact TokenKind.ofOperator?_ne_identifier hkind

theorem isName_word {c : Char} {rest : List Char} (h : isLetter c = true) :
    Header.IsName (word (c :: rest)) := by
  refine ⟨c, word rest, ?_, h, word_word _⟩
  exact List.takeWhile_cons_of_pos (isWordChar_of_isLetter c h)

/-- Identifiers are read where a letter stands. -/
theorem isIdentifier_read {afterOperand : Bool} {c : Char} {rest : List Char} {lexeme : Lexeme}
    (h : read afterOperand c rest = .ok lexeme) (hkind : lexeme.kind = .identifier) :
    IsIdentifier (String.ofList lexeme.text) := by
  unfold read at h
  split at h
  · next hletter =>
    cases h
    refine ⟨?_, hkind⟩
    rw [String.toList_ofList]
    exact isName_word hletter
  · exfalso
    split at h
    · cases h
      cases hkind
    · split at h
      · split at h
        · next hstring =>
          cases h
          obtain ⟨body, behind, -, -, rfl⟩ := string?_eq_some hstring
          cases hkind
        · cases h
      · split at h
        · next hpunctuation =>
          cases h
          exact TokenKind.ofPunctuation?_ne_identifier hpunctuation hkind
        · split at h
          · cases h
            cases hkind
          · split at h
            · next hsymbol =>
              cases h
              exact symbol?_ne_identifier hsymbol hkind
            · cases h

theorem wellSpelled_read {afterOperand : Bool} {c : Char} {rest : List Char} {lexeme : Lexeme}
    (h : read afterOperand c rest = .ok lexeme) (pos : Pos) :
    (lexeme.token pos).WellSpelled := by
  refine ⟨isIdentifier_read h, fun hkind ↦ ?_⟩
  rcases isPlain_or_quoted h with hplain | ⟨body, hbody, rfl⟩
  · exact absurd hkind hplain.1.1
  · rw [token, String.toList_ofList]
    exact hbody

end Lexeme

/-- All tokens of a source text are well spelled. -/
theorem wellSpelled_tokenize {limit : Nat} {source : String} {tokens : List Token}
    (h : tokenize limit source = .ok tokens) : ∀ token ∈ tokens, token.WellSpelled := by
  refine Scan.forall_tokens Lexeme.wellSpelled_read (fun token hextra ↦ ?_)
    (fun _ ↦ Token.wellSpelled_of_kind nofun nofun) h
  rcases hextra with hkind | hkind | hkind | hkind
  all_goals exact Token.wellSpelled_of_kind (by simp [hkind]) (by simp [hkind])

/-- Functions are declared under names only, though not always under identifiers. -/
theorem isName_functionName {limit : Nat} {source : String} {tokens : List Token}
    (h : tokenize limit source = .ok tokens) :
    ∀ token ∈ tokens, token.kind = .functionName → Header.IsName token.text.toList := by
  refine Scan.forall_tokens_of_readers (fun hread pos hkind ↦ ?_)
    (fun hread token htoken hkind ↦ ?_) (fun hread hkind ↦ ?_) (fun pos hkind ↦ nomatch hkind) h
  · rcases Lexeme.isPlain_or_quoted hread with hplain | ⟨body, -, rfl⟩
    · exact absurd hkind hplain.1.2.1
    · cases hkind
  · obtain ⟨_, _, _, _, _, hname, hlist, harrow, rfl⟩ := Header.exists_of_read_eq_ok hread
    rcases List.mem_cons.mp htoken with rfl | htoken
    · exact Header.isName_of_name hname
    · rcases List.mem_append.mp htoken with htoken | htoken
      · exact Header.isName_of_parameterList hlist token htoken
      · cases List.mem_singleton.mp htoken
        rw [Header.kind_of_arrow harrow] at hkind
        cases hkind
  · rw [Scan.kind_of_printParen hread] at hkind
    cases hkind

end Reckoner
