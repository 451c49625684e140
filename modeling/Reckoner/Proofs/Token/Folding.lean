import Reckoner.Proofs.Text.Classes
import Reckoner.Proofs.Token.Limit
import Reckoner.Proofs.Token.Tiling

/-!
Minus signs that are read as part of a number. Where the scan folds a sign into the number behind
it, a blank between both undoes that: then the sign is an operator and the number has none. All
else stays as it is. In front of the sign the scan cannot see the blank, and what stands behind the
number is read the same wherever it stands.
-/

set_option autoImplicit false
set_option relaxedAutoImplicit false

namespace Reckoner

open Text

/-! ### Putting in a blank -/

namespace Pos

/-- Where a position comes to stand when a blank is put in behind the character at the origin. -/
def spaced (origin pos : Pos) : Pos :=
  if pos.line = origin.line ∧ origin.column < pos.column then ⟨pos.line, pos.column + 1⟩ else pos

theorem spaced_of_before {origin pos : Pos} (h : pos.Before origin) : spaced origin pos = pos := by
  unfold Before at h
  exact if_neg (by omega)

theorem spaced_advance {origin pos : Pos} (h : origin.Before pos) (c : Char) :
    spaced origin (pos.advance c) = (spaced origin pos).advance c := by
  rcases h with hline | ⟨hline, hcolumn⟩
  · -- on later lines nothing moves
    have hlater {pos : Pos} (h : origin.line < pos.line) : spaced origin pos = pos :=
      if_neg (by omega)
    have hadvance : origin.line < (pos.advance c).line := by
      unfold advance
      split
      · exact Int.lt_add_one_of_le (Int.le_of_lt hline)
      · exact hline
    rw [hlater hline, hlater hadvance]
  · have hmoved : spaced origin pos = ⟨pos.line, pos.column + 1⟩ :=
      if_pos ⟨hline.symm, hcolumn⟩
    rw [hmoved]
    unfold advance
    split
    · exact if_neg (by simp only; omega)
    · exact if_pos (by simp only; omega)

theorem spaced_after {origin pos : Pos} (h : origin.Before pos) (text : List Char) :
    origin.Before (pos.after text) ∧
      spaced origin (pos.after text) = (spaced origin pos).after text := by
  induction text generalizing pos with
  | nil => exact ⟨h, rfl⟩
  | cons c text ih =>
    rw [after_cons, after_cons, ← spaced_advance h]
    exact ih (h.trans (before_advance pos c))

end Pos

/-- The token at another position. -/
def Token.moved (move : Pos → Pos) (token : Token) : Token :=
  { token with pos := move token.pos }

/-- A cursor behind the origin, and the one that it becomes. -/
theorem Cursor.parallel_spaced (origin : Pos) : Parallel [] fun here here' ↦
    origin.Before here.pos ∧ here' = ⟨here.rest, Pos.spaced origin here.pos⟩ where
  closed := closed_nil
  rest := by
    rintro here here' ⟨-, rfl⟩
    exact (List.append_nil _).symm
  skip := by
    rintro here here' piece ⟨hbefore, rfl⟩ -
    obtain ⟨hafter, hspaced⟩ := Pos.spaced_after hbefore piece
    exact ⟨hafter, by rw [Cursor.skip, Cursor.skip, hspaced]⟩

theorem Token.eq_of_corresponds_spaced {origin : Pos} {found found' : List Token}
    (h : List.Forall₂ (Token.Corresponds fun here here' ↦
      origin.Before here.pos ∧ here' = ⟨here.rest, Pos.spaced origin here.pos⟩) found found') :
    found' = found.map (Token.moved (Pos.spaced origin)) := by
  induction h with
  | nil => rfl
  | @cons token token' _ _ htoken _ ih =>
    obtain ⟨hkind, htext, here, here', ⟨-, rfl⟩, hpos, hpos'⟩ := htoken
    cases token
    cases token'
    cases hkind
    cases htext
    cases hpos
    cases hpos'
    rw [ih]
    rfl

/-! ### Coming to a place -/

namespace Lexeme

variable {afterOperand : Bool} {c : Char} {rest behind : List Char} {lexeme : Lexeme}

/-- A lexeme that ends inside a text is read from that text alone. -/
theorem read_inside (hbehind : Apart behind)
    (h : read afterOperand c (rest ++ behind) = .ok lexeme)
    (hspan : lexeme.span.length ≤ rest.length + 1) : read afterOperand c rest = .ok lexeme := by
  by_cases hquote : c = '"'
  · subst hquote
    rw [read_quote] at h ⊢
    cases hstring : string? (rest ++ behind) with
    | none =>
      rw [hstring] at h
      cases h
    | some found =>
      rw [hstring] at h
      cases h
      obtain ⟨body, more, hbody, hrest, rfl⟩ := string?_eq_some hstring
      have hlength : (body ++ ['"']).length ≤ rest.length := by
        simp only [quoted, List.length_cons, List.length_append, List.length_nil] at hspan ⊢
        omega
      have hprefix : body ++ ['"'] <+: rest ++ behind :=
        ⟨more, by rw [hrest, List.append_assoc]; rfl⟩
      obtain ⟨others, rfl⟩ := List.prefix_of_prefix_length_le hprefix
        (List.prefix_append rest behind) hlength
      rw [List.append_assoc, List.singleton_append, string?_quoted hbody]
  · rwa [read_append hbehind hquote] at h

/-- A number with a minus sign is read where no operand has just ended and a numeral follows. -/
theorem read_signed (h : read afterOperand c rest = .ok lexeme) (hkind : lexeme.kind = .number)
    (hsign : lexeme.text.head? = some '-') :
    c = '-' ∧ startsNumeral rest = true ∧ afterOperand = false ∧
      lexeme = plain .number ('-' :: numeral rest) := by
  unfold read at h
  split at h
  · cases h
    exact absurd hkind (TokenKind.ofWord_ne _).1
  · split at h
    · next hdecimal =>
      cases h
      obtain ⟨behind, hbehind, -⟩ := exists_numeral_append (c :: rest)
      obtain ⟨more, hmore⟩ := List.head?_eq_some_iff.mp hsign
      have hnumeral : numeral (c :: rest) = '-' :: more := hmore
      rw [hnumeral] at hbehind
      obtain ⟨rfl, -⟩ := List.cons.inj hbehind
      exact absurd hdecimal (by decide)
    · split at h
      · split at h
        · next hstring =>
          cases h
          obtain ⟨body, behind, -, -, rfl⟩ := string?_eq_some hstring
          cases hkind
        · cases h
      · split at h
        · next hpunctuation =>
          cases h
          exact absurd hkind (TokenKind.ofPunctuation?_ne hpunctuation).1
        · split at h
          · next hminus =>
            cases h
            obtain ⟨rfl, hnumeral, hoperand⟩ := hminus
            exact ⟨rfl, hnumeral, Bool.eq_false_iff.mpr hoperand, rfl⟩
          · split at h
            · next hsymbol =>
              cases h
              exact absurd hkind (kind_of_symbol? hsymbol)
            · cases h

/-- A minus sign before a numeral is part of it, unless an operand has just ended. -/
theorem read_minus_numeral (h : startsNumeral rest = true) :
    read false '-' rest = .ok (plain .number ('-' :: numeral rest)) := by
  have hletter : isLetter '-' = false := by decide
  have hdecimal : isDecimal '-' = false := by decide
  simp [read, hletter, hdecimal, TokenKind.ofPunctuation?, h]

/-- A minus sign before a blank is an operator. -/
theorem read_minus_blank (afterOperand : Bool) (rest : List Char) :
    read afterOperand '-' (' ' :: rest) = .ok (plain .operator ['-']) := by
  have hletter : isLetter '-' = false := by decide
  have hdecimal : isDecimal '-' = false := by decide
  have hblank : isDecimal ' ' = false := by decide
  simp [read, hletter, hdecimal, TokenKind.ofPunctuation?, startsNumeral, hblank, symbol?,
    TokenKind.ofPair?, TokenKind.ofOperator?]

/-- A numeral is a number wherever it starts. -/
theorem read_numeral (afterOperand : Bool) (h : startsNumeral (c :: rest) = true) :
    read afterOperand c rest = .ok (plain .number (numeral (c :: rest))) := by
  have hdecimal : isDecimal c = true := h
  rw [read, if_neg (by simp [isLetter_of_isDecimal hdecimal]), if_pos hdecimal]

end Lexeme

namespace Scan

variable {limit limit' : Nat} {opens opens' : List OpenPrint} {afterOperand : Bool}
  {here : Cursor} {c : Char} {rest : List Char}

/-- Where a scan has come to: the prints that are open, whether an operand has just ended, and
the cursor. -/
structure State where
  opens : List OpenPrint
  afterOperand : Bool
  here : Cursor

/-- Where a step comes to. -/
def Step.state (found : Step) : State :=
  ⟨found.opens, found.afterOperand, found.next⟩

/-- The scan comes from one state to another, and reads the tokens on its way. -/
inductive Comes (limit : Nat) : State → List Token → State → Prop where
  | here (state : State) : Comes limit state [] state
  | step {state last : State} {c : Char} {rest : List Char} {found : Step} {more : List Token}
      (hrest : state.here.skipLayout.rest = c :: rest)
      (hstep : step limit state.opens state.afterOperand state.here.skipLayout c rest = .ok found)
      (hmore : Comes limit found.state more last) : Comes limit state (found.tokens ++ more) last

theorem Comes.length_le {state last : State} {before : List Token}
    (h : Comes limit state before last) : last.here.rest.length ≤ state.here.rest.length := by
  induction h with
  | here => exact Nat.le_refl _
  | step hrest hstep _ ih =>
    exact ih.trans ((length_step hrest hstep).le.trans (Cursor.length_skipLayout _))

/-- A scan stays at places of its source. -/
theorem at_step {source : List Char} {found : Step} (hat : ∃ place, here.At source place)
    (hrest : here.rest = c :: rest)
    (hstep : step limit opens afterOperand here c rest = .ok found) :
    ∃ place, found.next.At source place := by
  have hC : Parallel [] fun here here' ↦ here' = here ∧ ∃ place, here.At source place := by
    refine ⟨closed_nil, ?_, ?_⟩
    · rintro here here' ⟨rfl, -⟩
      exact (List.append_nil _).symm
    · rintro here here' piece ⟨rfl, place, hat⟩ hpiece
      exact ⟨rfl, _, hat.skip hpiece⟩
  have hopens : opens.map (·.depth) = opens.map (·.depth) := rfl
  have hread : Lexeme.read afterOperand c (rest ++ []) = Lexeme.read afterOperand c rest := by
    rw [List.append_nil]
  have hsame := step_alike limit hC ⟨rfl, hat⟩ hrest hopens hread
  rw [hstep, List.append_nil] at hsame
  obtain ⟨found', -, hfound⟩ := hsame.of_ok
  exact hfound.next.2

theorem Comes.at {source : List Char} {state last : State} {before : List Token}
    (h : Comes limit state before last) (hat : ∃ place, state.here.At source place) :
    ∃ place, last.here.skipLayout.At source place := by
  have hstart {here : Cursor} (hat : ∃ place, here.At source place) :
      ∃ place, here.skipLayout.At source place := by
    obtain ⟨place, hat⟩ := hat
    exact ⟨_, hat.skip (Cursor.layout_isPrefix false _)⟩
  induction h with
  | here => exact hstart hat
  | step hrest hstep _ ih => exact ih (at_step (hstart hat) hrest hstep)

/-- Whether an operand has just ended can be told from the last token. -/
theorem afterOperand_of_step {found : Step}
    (hstep : step limit opens afterOperand here c rest = .ok found) :
    ∃ token ∈ found.tokens.getLast?, token.kind.endsOperand = found.afterOperand := by
  obtain ⟨lexeme, -, hfound⟩ := step_eq_ok_iff.mp hstep
  rcases hfound with ⟨-, -, rfl⟩ | ⟨-, header, next, hheader, rfl⟩ |
    ⟨-, -, paren, next, hparen, rfl⟩
  · exact ⟨_, rfl, rfl⟩
  · obtain ⟨_, _, _, _, arrow, -, -, harrow, rfl⟩ := Header.exists_of_read_eq_ok hheader
    refine ⟨arrow, by simp [List.getLast?_cons, List.getLast?_append], ?_⟩
    rw [Header.kind_of_arrow harrow]
    rfl
  · refine ⟨paren, rfl, ?_⟩
    rw [kind_of_printParen hparen]
    rfl

theorem Comes.endsOperand {state last : State} {before : List Token}
    (h : Comes limit state before last) :
    ∀ token ∈ before.getLast?, token.kind.endsOperand = last.afterOperand := by
  have hstep' {state last : State} {before : List Token} (h : Comes limit state before last) :
      (before = [] → last = state) := by
    intro hnil
    cases h with
    | here => rfl
    | step hrest hstep _ =>
      obtain ⟨token, htoken, -⟩ := afterOperand_of_step hstep
      rw [(List.append_eq_nil_iff.mp hnil).1] at htoken
      cases htoken
  induction h with
  | here => exact nofun
  | @step state last c rest found more hrest hstep hmore ih =>
    rw [List.getLast?_append]
    cases hlast : more.getLast? with
    | some token => simpa [hlast] using ih
    | none =>
      obtain rfl := hstep' hmore (List.getLast?_eq_none_iff.mp hlast)
      obtain ⟨token, htoken, hends⟩ := afterOperand_of_step hstep
      rw [Option.none_or, Option.mem_def.mp htoken]
      rintro other ⟨⟩
      exact hends

/-- The limit has no say in what a step finds. -/
theorem step_unique {found found' : Step}
    (h : step limit opens afterOperand here c rest = .ok found)
    (h' : step limit' opens afterOperand here c rest = .ok found') : found' = found := by
  have hunder {limit limit' : Nat} (hlimit : limit ≤ limit') {found found' : Step}
      (h : step limit opens afterOperand here c rest = .ok found)
      (h' : step limit' opens afterOperand here c rest = .ok found') : found' = found := by
    rcases step_under hlimit here c rest with hdeep | hsame
    · rw [h] at hdeep
      cases hdeep
    · rw [h, h'] at hsame
      exact (Except.ok.inj hsame).symm
  rcases Nat.le_total limit limit' with hlimit | hlimit
  · exact hunder hlimit h h'
  · exact (hunder hlimit h' h).symm

/-- What a step passes over contains the lexeme that it starts with. -/
theorem exists_read_of_step {found : Step}
    (hstep : step limit opens afterOperand here c rest = .ok found) :
    ∃ lexeme, Lexeme.read afterOperand c rest = .ok lexeme ∧
      found.next.rest.length ≤ (here.skip lexeme.span).rest.length ∧
      ∀ token ∈ found.tokens, token.kind = .number →
        found.tokens = [token] ∧ token = lexeme.token here.pos := by
  obtain ⟨lexeme, hread, hfound⟩ := step_eq_ok_iff.mp hstep
  refine ⟨lexeme, hread, ?_⟩
  rcases hfound with ⟨-, -, rfl⟩ | ⟨hkind, header, next, hheader, rfl⟩ |
    ⟨hkind, -, paren, next, hparen, rfl⟩
  · exact ⟨Nat.le_refl _, List.forall_mem_singleton.mpr fun _ ↦ ⟨rfl, rfl⟩⟩
  · refine ⟨Header.length_read hheader, List.forall_mem_cons.mpr ⟨fun hnumber ↦ ?_, ?_⟩⟩
    · cases hkind.symm.trans hnumber
    · intro token htoken hnumber
      rcases Header.kinds_of_read hheader token htoken with h | h | h <;>
        cases h.symm.trans hnumber
  · refine ⟨length_printParen hparen, List.forall_mem_cons.mpr ⟨fun hnumber ↦ ?_,
      List.forall_mem_singleton.mpr fun hnumber ↦ ?_⟩⟩
    · cases hkind.symm.trans hnumber
    · cases (kind_of_printParen hparen).symm.trans hnumber

/-- Behind the blank the same tokens are found. -/
theorem tokens_spaced {origin pos : Pos} (hbefore : origin.Before pos) (rest : List Char)
    (limit : Nat) (afterOperand : Bool) (hopens : opens'.map (·.depth) = opens.map (·.depth)) :
    Alike (fun found found' ↦ found' = found.map (Token.moved (Pos.spaced origin)))
      (tokens limit opens afterOperand ⟨rest, pos⟩)
      (tokens limit opens' afterOperand ⟨rest, Pos.spaced origin pos⟩) :=
  (tokens_alike (Cursor.parallel_spaced origin) ⟨hbefore, rfl⟩ hopens).imp fun _ _ hfound ↦
    Token.eq_of_corresponds_spaced hfound

/-- A number is read as a lexeme where the scan comes to it. -/
theorem exists_comes {before after : List Token} {token : Token}
    (h : tokens limit opens afterOperand here = .ok (before ++ token :: after))
    (hkind : token.kind = .number) : ∃ last c rest lexeme,
      Comes limit ⟨opens, afterOperand, here⟩ before last ∧
        last.here.skipLayout.rest = c :: rest ∧
        Lexeme.read last.afterOperand c rest = .ok lexeme ∧
        token = lexeme.token last.here.skipLayout.pos := by
  generalize hfound : before ++ token :: after = found at h
  fun_induction tokens limit opens afterOperand here generalizing before found with
  | case1 afterOperand here start =>
    cases h
    have hmem : token ∈ before ++ token :: after := by simp
    rw [hfound] at hmem
    cases List.mem_singleton.mp hmem
    cases hkind
  | case2 => cases h
  | case3 => cases h
  | case4 opens afterOperand here start c rest hrest step hstep =>
    rename_i ih
    obtain ⟨more, hmore, rfl⟩ := exists_of_map_eq_ok h
    have hsplit : (∃ others, before = step.tokens ++ others ∧ others ++ token :: after = more) ∨
        token ∈ step.tokens ∧ ∃ own, step.tokens = before ++ token :: own := by
      rcases List.append_eq_append_iff.mp hfound with
        ⟨own, hown, hmore'⟩ | ⟨others, hothers, hmore'⟩
      · cases own with
        | nil => exact .inl ⟨[], by simpa using hown.symm, hmore'⟩
        | cons first own =>
          obtain ⟨rfl, -⟩ := List.cons.inj hmore'
          exact .inr ⟨by simp [hown], own, hown⟩
      · exact .inl ⟨others, hothers, hmore'.symm⟩
    rcases hsplit with ⟨others, rfl, hmore'⟩ | ⟨hmem, own, hown⟩
    · obtain ⟨last, d, behind, lexeme, hcomes, hlast⟩ := ih more hmore' hmore
      exact ⟨last, d, behind, lexeme, .step hrest hstep hcomes, hlast⟩
    · obtain ⟨lexeme, hread, -, hnumber⟩ := exists_read_of_step hstep
      obtain ⟨honly, htoken⟩ := hnumber token hmem hkind
      have hlength := congrArg List.length (hown.symm.trans honly)
      rw [List.length_append, List.length_cons, List.length_singleton] at hlength
      obtain rfl := List.eq_nil_of_length_eq_zero (by omega : before.length = 0)
      exact ⟨_, c, rest, lexeme, .here _, hrest, hread, htoken⟩

end Scan

/-! ### Signs of numbers -/

/-- A place in a source where a minus sign stands: the text on both sides of it. -/
structure SignPlace where
  front : List Char
  behind : List Char

namespace SignPlace

variable (place : SignPlace)

/-- The source. -/
def source : String :=
  String.ofList (place.front ++ '-' :: place.behind)

/-- The source with a blank behind the sign. -/
def spaced : String :=
  String.ofList (place.front ++ '-' :: ' ' :: place.behind)

/-- The position of the sign. -/
def pos : Pos :=
  .behind place.front

/-- The numeral behind the sign. -/
def digits : List Char :=
  Lexeme.numeral place.behind

/-- The number that the sign and the numeral are read as. -/
def folded : Token :=
  ⟨.number, String.ofList ('-' :: place.digits), place.pos⟩

/-- The sign as an operator. -/
def minus : Token :=
  ⟨.operator, "-", place.pos⟩

/-- The numeral as a number, behind the blank. -/
def number : Token :=
  ⟨.number, String.ofList place.digits, place.pos.after ['-', ' ']⟩

/-- Whether the sign is read as part of a number: the scan comes to it, no operand has just ended
and a numeral follows. -/
structure Folded : Prop where
  numeral : Lexeme.startsNumeral place.behind = true
  comes : ∃ limit before last, Scan.Comes limit ⟨[], false, .ofText place.source⟩ before last ∧
    last.afterOperand = false ∧ last.here.skipLayout = ⟨'-' :: place.behind, place.pos⟩

end SignPlace

theorem closed_minus (rest : List Char) : Closed ('-' :: rest) := by
  refine ⟨apart_cons.mpr (by decide), ?_⟩
  rintro d ⟨⟩
  decide

/-- Where the layout in front of a sign ends does not depend on what is behind the sign. -/
theorem Cursor.skipLayout_followed_minus {core : Cursor} {rest : List Char} {pos : Pos}
    (h : (core.followed ('-' :: rest)).skipLayout = ⟨'-' :: rest, pos⟩) (other : List Char) :
    (core.followed ('-' :: other)).skipLayout = ⟨'-' :: other, pos⟩ := by
  obtain ⟨hrest, rfl⟩ := Cursor.mk.inj h
  have hprefix := layout_isPrefix false (core.rest ++ '-' :: rest)
  have hall : layout false (core.rest ++ '-' :: rest) = core.rest := by
    refine (List.prefix_of_prefix_length_le hprefix (List.prefix_append _ _) ?_).eq_of_length ?_
    all_goals
      have hlength := congrArg List.length hrest
      have hbound := hprefix.length_le
      simp only [followed, List.length_drop, List.length_append, List.length_cons] at hlength hbound
      omega
  have hcore : layout false core.rest = core.rest := by
    by_contra hends
    exact hends ((layout_append_of_ne (closed_minus rest).apart hends).symm.trans hall)
  obtain ⟨inComment, hbehind⟩ := layout_append_of_eq hcore
  have hflag : inComment = false := by
    have hnil : layout inComment ('-' :: rest) = [] :=
      List.append_cancel_left ((hbehind _).symm.trans (hall.trans (List.append_nil _).symm))
    cases inComment with
    | false => rfl
    | true => cases hnil
  have hother : layout false (core.rest ++ '-' :: other) = core.rest := by
    rw [hbehind, hflag]
    exact List.append_nil _
  simp only [skipLayout, skip, followed, hother, hall, List.drop_left]

/-- Behind a blank a numeral starts at once. -/
theorem Cursor.layout_blank_numeral {rest : List Char}
    (h : Lexeme.startsNumeral rest = true) : layout false (' ' :: rest) = [' '] := by
  cases rest with
  | nil => rfl
  | cons c rest =>
    have hdecimal : isDecimal c = true := h
    rw [layout_blank (by decide), layout.eq_4, if_neg (by simp [isBlank_of_isDecimal hdecimal])]
    rintro more rfl -
    exact absurd hdecimal (by decide)

/-- A step that ends inside a text starts with a lexeme of that text, whatever follows it. -/
theorem Scan.exists_inside {core : Cursor} {behind rest : List Char} {c : Char} {limit : Nat}
    {opens : List OpenPrint} {afterOperand : Bool} {found : Step} (hbehind : Closed behind)
    (hrest : (core.followed behind).skipLayout.rest = c :: rest)
    (hstep : step limit opens afterOperand (core.followed behind).skipLayout c rest = .ok found)
    (hinside : behind.length ≤ found.next.rest.length) :
    Cursor.layout false core.rest ≠ core.rest ∧
      ∃ coreRest lexeme, core.skipLayout.rest = c :: coreRest ∧ rest = coreRest ++ behind ∧
        Lexeme.read afterOperand c coreRest = .ok lexeme := by
  have hends : Cursor.layout false core.rest ≠ core.rest := by
    intro hall
    obtain ⟨inComment, hlayout⟩ := Cursor.layout_append_of_eq hall
    have hlonger := hinside.trans_lt (length_step hrest hstep)
    simp only [Cursor.skipLayout, Cursor.skip, Cursor.followed, hlayout, List.length_drop,
      List.length_append] at hlonger
    omega
  have hstart : (core.followed behind).skipLayout = core.skipLayout.followed behind :=
    (Cursor.parallel_followed hbehind).skipLayout rfl hends
  rw [hstart] at hrest hstep
  obtain ⟨lexeme, hread, hlength, -⟩ := exists_read_of_step hstep
  obtain ⟨more, last, hspan, hsplit, -⟩ := Lexeme.read_span hread
  cases hcore : core.skipLayout.rest with
  | nil => exact absurd (Cursor.rest_skipLayout_eq_nil.mp hcore) hends
  | cons d coreRest =>
    rw [Cursor.followed, hcore, List.cons_append] at hrest
    obtain ⟨rfl, rfl⟩ := List.cons.inj hrest
    refine ⟨hends, coreRest, lexeme, rfl, rfl, Lexeme.read_inside hbehind.apart hread ?_⟩
    have htotal := congrArg List.length hsplit
    simp only [Cursor.skip, Cursor.followed, hcore, hspan, List.length_drop, List.length_append,
      List.length_cons] at hlength htotal ⊢
    omega

namespace SignPlace

variable {place : SignPlace} {limit limit' : Nat} {opens opens' : List Scan.OpenPrint}
  {here : Cursor}

/-- Two rows of tokens that differ in whether the sign is part of the number. -/
def Splits (place : SignPlace) (before tokens tokens' : List Token) : Prop :=
  ∃ after, tokens = before ++ place.folded :: after ∧
    tokens' = before ++ place.minus :: place.number ::
      after.map (Token.moved (Pos.spaced place.pos))

open Scan

/-- A number or an operator is a step by itself. -/
theorem tokens_plain {afterOperand : Bool} {start : Cursor} {c : Char} {rest span : List Char}
    {kind : TokenKind} (hstart : here.skipLayout = start) (hrest : start.rest = c :: rest)
    (hread : Lexeme.read afterOperand c rest = .ok (Lexeme.plain kind span))
    (hkind : kind = .number ∨ kind = .operator) :
    tokens limit opens afterOperand here =
      (tokens limit opens kind.endsOperand (start.skip span)).map
        (⟨kind, String.ofList span, start.pos⟩ :: ·) := by
  subst hstart
  have htrack : track opens kind = opens := by
    rcases hkind with rfl | rfl <;> cases opens <;> rfl
  have hstep : step limit opens afterOperand here.skipLayout c rest =
      .ok ⟨[⟨kind, String.ofList span, here.skipLayout.pos⟩], opens, kind.endsOperand,
        here.skipLayout.skip span⟩ := by
    simp only [step, hread, Lexeme.token, Lexeme.plain]
    rcases hkind with rfl | rfl <;> simp only [htrack]
  rw [tokens_cons hrest, hstep]
  rfl

/-- From the sign on, the number with the sign comes first. -/
theorem tokens_folded (hnumeral : Lexeme.startsNumeral place.behind = true)
    (hhere : here.skipLayout = ⟨'-' :: place.behind, place.pos⟩) :
    tokens limit opens false here =
      (tokens limit opens true ⟨place.behind.drop place.digits.length,
        (place.pos.advance '-').after place.digits⟩).map (place.folded :: ·) :=
  tokens_plain hhere rfl (Lexeme.read_minus_numeral hnumeral) (.inl rfl)

/-- With a blank behind the sign, the sign and the number come first. -/
theorem tokens_minus (hnumeral : Lexeme.startsNumeral place.behind = true)
    (hhere : here.skipLayout = ⟨'-' :: ' ' :: place.behind, place.pos⟩) :
    tokens limit opens false here =
      (tokens limit opens true ⟨place.behind.drop place.digits.length,
        (place.pos.after ['-', ' ']).after place.digits⟩).map
          fun found ↦ place.minus :: place.number :: found := by
  have hminus : tokens limit opens false here = (tokens limit opens false
      ⟨' ' :: place.behind, place.pos.advance '-'⟩).map (place.minus :: ·) :=
    tokens_plain hhere rfl (Lexeme.read_minus_blank false place.behind) (.inr rfl)
  have hblank : Cursor.skipLayout ⟨' ' :: place.behind, place.pos.advance '-'⟩ =
      ⟨place.behind, place.pos.after ['-', ' ']⟩ := by
    rw [Cursor.skipLayout, Cursor.layout_blank_numeral hnumeral]
    rfl
  obtain ⟨c, rest, hbehind⟩ : ∃ c rest, place.behind = c :: rest := by
    cases h : place.behind with
    | nil => rw [h] at hnumeral; cases hnumeral
    | cons c rest => exact ⟨c, rest, rfl⟩
  have hread : Lexeme.read false c rest = .ok (Lexeme.plain .number place.digits) := by
    rw [digits, hbehind]
    exact Lexeme.read_numeral false (hbehind ▸ hnumeral)
  have hnumber : tokens limit opens false ⟨' ' :: place.behind, place.pos.advance '-'⟩ =
      (tokens limit opens true ⟨place.behind.drop place.digits.length,
        (place.pos.after ['-', ' ']).after place.digits⟩).map (place.number :: ·) :=
    tokens_plain hblank hbehind hread (.inl rfl)
  rw [hminus, hnumber]
  cases tokens limit opens true _ <;> rfl

/-- What a scan finds from the sign on. -/
theorem alike_at_sign {here' : Cursor} (hnumeral : Lexeme.startsNumeral place.behind = true)
    (hhere : here.skipLayout = ⟨'-' :: place.behind, place.pos⟩)
    (hhere' : here'.skipLayout = ⟨'-' :: ' ' :: place.behind, place.pos⟩)
    (hopens : opens'.map (·.depth) = opens.map (·.depth)) :
    Alike (place.Splits []) (tokens limit opens false here) (tokens limit opens' false here') := by
  obtain ⟨hafter, hspaced⟩ :=
    Pos.spaced_after (Pos.before_advance place.pos '-') place.digits
  have hadvance : Pos.spaced place.pos (place.pos.advance '-') = place.pos.after ['-', ' '] :=
    if_pos ⟨rfl, Int.lt_succ _⟩
  have hbehind := tokens_spaced hafter (place.behind.drop place.digits.length) limit true hopens
  rw [hspaced, hadvance] at hbehind
  rw [tokens_folded hnumeral hhere, tokens_minus hnumeral hhere']
  exact hbehind.map fun after after' hafter ↦ ⟨after, rfl, by rw [hafter]; rfl⟩

/-- Up to the sign, scans do not see what is behind it. -/
theorem alike_spaced {state last : State} {before : List Token} {core : Cursor}
    (hnumeral : Lexeme.startsNumeral place.behind = true)
    (hcomes : Comes limit' state before last) (hoperand : last.afterOperand = false)
    (hlast : last.here.skipLayout = ⟨'-' :: place.behind, place.pos⟩)
    (hcore : state.here = core.followed ('-' :: place.behind))
    (hopens : opens'.map (·.depth) = state.opens.map (·.depth)) :
    Alike (place.Splits before) (tokens limit state.opens state.afterOperand state.here)
      (tokens limit opens' state.afterOperand (core.followed ('-' :: ' ' :: place.behind))) := by
  induction hcomes generalizing core opens' with
  | here state =>
    rw [hoperand]
    exact alike_at_sign hnumeral hlast
      (Cursor.skipLayout_followed_minus (hcore ▸ hlast) (' ' :: place.behind)) hopens
  | @step state last c rest found more hrest hstep hmore ih =>
    have hinside : ('-' :: place.behind).length ≤ found.next.rest.length := by
      have hbound := Cursor.length_skipLayout last.here
      rw [hlast] at hbound
      exact hbound.trans hmore.length_le
    rw [hcore] at hrest hstep
    obtain ⟨hends, coreRest, lexeme, hcoreRest, rfl, hread⟩ :=
      exists_inside (closed_minus place.behind) hrest hstep hinside
    have hstart (behind : List Char) : (core.followed ('-' :: behind)).skipLayout =
        core.skipLayout.followed ('-' :: behind) :=
      (Cursor.parallel_followed (closed_minus behind)).skipLayout rfl hends
    have hrest' : (core.followed ('-' :: ' ' :: place.behind)).skipLayout.rest =
        c :: (coreRest ++ '-' :: ' ' :: place.behind) := by
      rw [hstart, Cursor.followed, hcoreRest, List.cons_append]
    -- the text in front of the sign takes the same step, whatever stands behind the sign
    have halike {others : List OpenPrint} (behind : List Char)
        (hothers : others.map (·.depth) = state.opens.map (·.depth)) :=
      step_alike limit (Cursor.parallel_followed (closed_minus behind)) rfl hcoreRest
        hothers (by rw [hread, Lexeme.read_append_of_ok (closed_minus behind).apart hread])
    rw [hcore, tokens_cons hrest, tokens_cons hrest', hstart, hstart]
    rw [hstart] at hstep
    cases hown : step limit state.opens state.afterOperand core.skipLayout c coreRest with
    | error fault =>
      obtain ⟨first, hfirst⟩ := (hown ▸ halike place.behind rfl).of_error
      obtain ⟨second, hsecond⟩ := (hown ▸ halike (' ' :: place.behind) hopens).of_error
      rw [hfirst, hsecond]
      exact .error _ _
    | ok own =>
      obtain ⟨first, hfirst, hown₁⟩ := (hown ▸ halike place.behind rfl).of_ok
      obtain ⟨second, hsecond, hown₂⟩ := (hown ▸ halike (' ' :: place.behind) hopens).of_ok
      obtain rfl := step_unique hstep hfirst
      have hnext : Alike (place.Splits more)
          (tokens limit first.opens first.afterOperand first.next)
          (tokens limit second.opens second.afterOperand second.next) := by
        rw [hown₂.afterOperand, ← hown₁.afterOperand, hown₂.next]
        exact ih hoperand hlast hown₁.next (hown₂.opens.trans hown₁.opens.symm)
      rw [hfirst, hsecond]
      refine hnext.map fun found found' hfound ↦ ?_
      obtain ⟨after, rfl, rfl⟩ := hfound
      rw [Token.eq_of_corresponds_followed hown₁.tokens,
        Token.eq_of_corresponds_followed hown₂.tokens]
      exact ⟨after, (List.append_assoc _ _ _).symm, (List.append_assoc _ _ _).symm⟩

/-- The source and the one with the blank have the same tokens, up to positions behind the blank,
but for the number: its sign is a token of its own. Before the sign no operand ends. Under no
limit is only one of them refused. -/
theorem Folded.tokenize_alike (h : place.Folded) : ∃ before,
    (∀ token ∈ before.getLast?, token.kind.endsOperand = false) ∧
      ∀ limit, Alike (place.Splits before) (tokenize limit place.source)
        (tokenize limit place.spaced) := by
  obtain ⟨hnumeral, limit', before, last, hcomes, hoperand, hlast⟩ := h
  refine ⟨before, fun token htoken ↦ (hcomes.endsOperand token htoken).trans hoperand,
    fun limit ↦ ?_⟩
  have hsource (behind : List Char) : Cursor.ofText (String.ofList (place.front ++ '-' :: behind)) =
      Cursor.followed ⟨place.front, .start⟩ ('-' :: behind) := by
    rw [Cursor.ofText, String.toList_ofList]
    rfl
  rw [tokenize, tokenize, source, spaced, hsource (' ' :: place.behind)]
  exact alike_spaced hnumeral hcomes hoperand hlast (hsource place.behind) rfl

end SignPlace

/-- Every number with a sign is read at such a place. -/
theorem exists_folded {limit : Nat} {source : String} {found : List Token} {token : Token}
    (h : tokenize limit source = .ok found) (htoken : token ∈ found)
    (hkind : token.kind = .number) (hsign : token.text.toList.head? = some '-') :
    ∃ place : SignPlace, place.source = source ∧ place.Folded ∧ token = place.folded := by
  obtain ⟨before, after, rfl⟩ := List.append_of_mem htoken
  obtain ⟨last, c, rest, lexeme, hcomes, hrest, hread, rfl⟩ := Scan.exists_comes h hkind
  have hsign : lexeme.text.head? = some '-' := by
    rw [← hsign]
    exact congrArg List.head? String.toList_ofList.symm
  obtain ⟨rfl, hnumeral, hoperand, rfl⟩ := Lexeme.read_signed hread hkind hsign
  obtain ⟨index, hat⟩ := hcomes.at ⟨0, Cursor.at_ofText source⟩
  have hsource : source.toList = source.toList.take index ++ '-' :: rest := by
    rw [← hrest, hat.rest, List.take_append_drop]
  have hlast : last.here.skipLayout = ⟨'-' :: rest, .behind (source.toList.take index)⟩ := by
    rw [← hrest, ← hat.pos]
  have hplace : (SignPlace.mk (source.toList.take index) rest).source = source := by
    rw [SignPlace.source, ← hsource, String.ofList_toList]
  refine ⟨⟨source.toList.take index, rest⟩, hplace, ⟨hnumeral, limit, before, last, ?_, hoperand,
    hlast⟩, ?_⟩
  · rw [hplace]
    exact hcomes
  · rw [hlast]
    rfl

end Reckoner
