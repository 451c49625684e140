import Reckoner.Proofs.Token.Balance

/-!
The limit on open prints. A scan under a limit either runs into it or finds what it finds under
any higher limit, tokens or an error. A limit of the length of the source is never run into, as
each print takes up characters of it.
-/

set_option autoImplicit false
set_option relaxedAutoImplicit false

namespace Reckoner

namespace Scan

variable {limit limit' : Nat} {opens : List OpenPrint} {afterOperand : Bool}

/-- The limit matters to a step only where a print is opened. -/
theorem step_under (hlimit : limit ≤ limit') (here : Cursor) (c : Char) (rest : List Char) :
    step limit opens afterOperand here c rest = .error .tooDeep ∨
      step limit opens afterOperand here c rest = step limit' opens afterOperand here c rest := by
  unfold step
  split
  · exact .inr rfl
  · dsimp only
    split
    · exact .inr rfl
    · split
      · exact .inr rfl
      · by_cases hdeep : limit ≤ opens.length
        · rw [if_pos hdeep]
          exact .inl rfl
        · have hdeep' : ¬ limit' ≤ opens.length := fun h ↦ hdeep (Nat.le_trans hlimit h)
          rw [if_neg hdeep, if_neg hdeep']
          exact .inr rfl
    · exact .inr rfl

/-- With fewer open prints allowed, a text has the same tokens or none because of the limit. -/
theorem tokens_under (hlimit : limit ≤ limit') (here : Cursor) :
    tokens limit opens afterOperand here = .error .tooDeep ∨
      tokens limit opens afterOperand here = tokens limit' opens afterOperand here := by
  fun_induction tokens limit opens afterOperand here with
  | case1 afterOperand here start =>
    rename_i hrest
    rw [tokens_eq limit', hrest]
    exact .inr rfl
  | case2 afterOperand here start hrest =>
    rw [tokens_eq limit', hrest]
    exact .inr rfl
  | case3 opens afterOperand here start c rest hrest fault hstep =>
    rcases step_under hlimit start c rest with hdeep | hsame
    · rw [hstep] at hdeep
      cases hdeep
      exact .inl rfl
    · rw [tokens_eq limit', hrest]
      dsimp only
      rw [← hsame, hstep]
      exact .inr rfl
  | case4 opens afterOperand here start c rest hrest found hstep ih =>
    rcases step_under hlimit start c rest with hdeep | hsame
    · rw [hstep] at hdeep
      cases hdeep
    · rw [tokens_eq limit', hrest]
      dsimp only
      rw [← hsame, hstep]
      rcases ih with hdeep | hmore
      · rw [hdeep]
        exact .inl rfl
      · rw [hmore]
        exact .inr rfl

/-- A step runs into the limit if that many prints are open. -/
theorem limit_le_of_step {here : Cursor} {c : Char} {rest : List Char}
    (h : step limit opens afterOperand here c rest = .error .tooDeep) : limit ≤ opens.length := by
  unfold step at h
  split at h
  · cases h
  · dsimp only at h
    split at h
    · split at h <;> cases h
    · split at h
      · cases h
      · split at h
        · assumption
        · cases h
    · cases h

/-- A step opens at most one print. -/
theorem length_opens_step {here : Cursor} {c : Char} {rest : List Char} {found : Step}
    (h : step limit opens afterOperand here c rest = .ok found) :
    found.opens.length ≤ opens.length + 1 := by
  obtain ⟨lexeme, -, hfound⟩ := step_eq_ok_iff.mp h
  rcases hfound with ⟨-, -, rfl⟩ | ⟨-, header, next, -, rfl⟩ | ⟨-, -, paren, next, -, rfl⟩
  · exact Nat.le_succ_of_le (length_track_le opens lexeme.kind)
  · exact Nat.le_succ _
  · exact Nat.le_refl _

/-- What is open and what is left to read are more than the limit if a scan runs into it. -/
theorem limit_lt_of_tokens {here : Cursor}
    (h : tokens limit opens afterOperand here = .error .tooDeep) :
    limit < opens.length + here.rest.length := by
  fun_induction tokens limit opens afterOperand here with
  | case1 => cases h
  | case2 => cases h
  | case3 opens afterOperand here start c rest hrest fault hstep =>
    cases h
    have hopens := limit_le_of_step hstep
    have hlength : start.rest.length ≤ here.rest.length := Cursor.length_skipLayout here
    have hpos := congrArg List.length hrest
    rw [List.length_cons] at hpos
    omega
  | case4 opens afterOperand here start c rest hrest found hstep ih =>
    have hmore : tokens limit found.opens found.afterOperand found.next = .error .tooDeep := by
      cases htokens : tokens limit found.opens found.afterOperand found.next with
      | error fault =>
        rw [htokens] at h
        exact h
      | ok others =>
        rw [htokens] at h
        cases h
    have hlimit := ih hmore
    have hopens := length_opens_step hstep
    have hshort := length_step hrest hstep
    have hlength : start.rest.length ≤ here.rest.length := Cursor.length_skipLayout here
    omega

end Scan

/-- Prints are nested no deeper than the source is long. -/
theorem tokenize_ne_tooDeep {limit : Nat} {source : String} (h : source.length ≤ limit) :
    tokenize limit source ≠ .error .tooDeep := by
  intro hdeep
  have hlimit := Scan.limit_lt_of_tokens hdeep
  have hlength : (Cursor.ofText source).rest.length = source.length := String.length_toList
  rw [hlength, List.length_nil, Nat.zero_add] at hlimit
  exact Nat.not_lt.mpr h hlimit

/-- With less nesting allowed, a source is cut into the same tokens or not at all. -/
theorem tokenize_under {limit limit' : Nat} (hlimit : limit ≤ limit') (source : String) :
    tokenize limit source = .error .tooDeep ∨ tokenize limit source = tokenize limit' source :=
  Scan.tokens_under hlimit (.ofText source)

end Reckoner
