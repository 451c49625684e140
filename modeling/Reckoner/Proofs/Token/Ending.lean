import Mathlib.Data.List.TakeWhile
import Reckoner.Token.Lexeme

/-!
Where lexemes end. A lexeme takes up the front of the text, and is read from that front alone.
What stands behind it matters only if it can carry the lexeme on.
-/

set_option autoImplicit false
set_option relaxedAutoImplicit false

namespace Reckoner

open Text

/-- Whether a text starts with nothing that could carry on a lexeme in front of it. -/
def Apart (behind : List Char) : Prop :=
  ∀ d ∈ behind.head?, isWordChar d = false ∧ d ≠ '.' ∧ d ≠ '=' ∧ d ≠ '>' ∧ d ≠ '/'

theorem apart_nil : Apart [] := nofun

theorem apart_cons {d : Char} {behind : List Char} : Apart (d :: behind) ↔
    isWordChar d = false ∧ d ≠ '.' ∧ d ≠ '=' ∧ d ≠ '>' ∧ d ≠ '/' := by
  simp [Apart]

theorem isWordChar_of_isDecimal {c : Char} (h : isDecimal c = true) : isWordChar c = true := by
  simp [isWordChar, h]

/-- What is taken off the front of a text is not longer if the text goes on with something else. -/
theorem takeWhile_append_of_head {taken : Char → Bool} {source behind : List Char}
    (h : ∀ d ∈ behind.head?, taken d = false) :
    (source ++ behind).takeWhile taken = source.takeWhile taken := by
  induction source with
  | nil =>
    cases behind with
    | nil => rfl
    | cons d behind => simp [h d rfl]
  | cons c source ih =>
    rw [List.cons_append, List.takeWhile_cons, List.takeWhile_cons, ih]

theorem dropWhile_append_of_head {taken : Char → Bool} {source behind : List Char}
    (h : ∀ d ∈ behind.head?, taken d = false) :
    (source ++ behind).dropWhile taken = source.dropWhile taken ++ behind := by
  induction source with
  | nil =>
    cases behind with
    | nil => rfl
    | cons d behind => simp [h d rfl]
  | cons c source ih =>
    rw [List.cons_append, List.dropWhile_cons, List.dropWhile_cons, ih]
    split <;> rfl

theorem Apart.isDecimal_eq_false {behind : List Char} (h : Apart behind) :
    ∀ d ∈ behind.head?, isDecimal d = false := by
  intro d hd
  rw [Bool.eq_false_iff]
  intro hdecimal
  have hword := isWordChar_of_isDecimal hdecimal
  rw [(h d hd).1] at hword
  cases hword

namespace Lexeme

variable {source rest behind : List Char} {c : Char} {afterOperand : Bool} {lexeme : Lexeme}

theorem word_append (h : Apart behind) : word (source ++ behind) = word source :=
  takeWhile_append_of_head fun d hd ↦ (h d hd).1

theorem numeral_append (h : Apart behind) : numeral (source ++ behind) = numeral source := by
  have hdecimal := h.isDecimal_eq_false
  unfold numeral
  rw [takeWhile_append_of_head hdecimal, dropWhile_append_of_head hdecimal]
  cases source.dropWhile isDecimal with
  | nil =>
    cases behind with
    | nil => rfl
    | cons d behind =>
      have hpoint := (apart_cons.mp h).2.1
      simp [hpoint]
  | cons d more =>
    by_cases hpoint : d = '.'
    · subst hpoint
      simp [takeWhile_append_of_head hdecimal]
    · simp [hpoint]

theorem startsNumeral_append (h : Apart behind) :
    startsNumeral (source ++ behind) = startsNumeral source := by
  cases source with
  | nil =>
    cases behind with
    | nil => rfl
    | cons d behind => exact h.isDecimal_eq_false d rfl
  | cons c source => rfl

theorem symbol?_append (h : Apart behind) : symbol? c (rest ++ behind) = symbol? c rest := by
  cases rest with
  | cons d rest => rfl
  | nil =>
    cases behind with
    | nil => rfl
    | cons d behind =>
      obtain ⟨-, -, hequals, hgreater, -⟩ := apart_cons.mp h
      have hpair : TokenKind.ofPair? c d = none := by
        unfold TokenKind.ofPair?
        split <;> first | rfl | exact absurd rfl hequals | exact absurd rfl hgreater
      simp [symbol?, hpair]

/-- Lexemes without quotes are read alike before any text that is apart from them. -/
theorem read_append (h : Apart behind) (hquote : c ≠ '"') :
    read afterOperand c (rest ++ behind) = read afterOperand c rest := by
  simp only [read, ← List.cons_append, word_append h, numeral_append h, startsNumeral_append h,
    symbol?_append h, if_neg hquote]

/-- The lexeme of a string literal with the given content. -/
def quoted (body : List Char) : Lexeme :=
  ⟨.string, body, '"' :: (body ++ ['"'])⟩

theorem takeWhile_ne_quote {body behind : List Char} (h : '"' ∉ body) :
    (body ++ '"' :: behind).takeWhile (· ≠ '"') = body := by
  have hbody : ∀ d ∈ body, decide (d ≠ '"') = true := by
    rintro d hd
    rw [decide_eq_true_eq]
    rintro rfl
    exact h hd
  rw [List.takeWhile_append_of_pos hbody]
  simp

theorem string?_quoted {body behind : List Char} (h : '"' ∉ body) :
    string? (body ++ '"' :: behind) = some (quoted body) := by
  unfold string?
  rw [takeWhile_ne_quote h]
  simp [quoted]

theorem string?_of_unquoted (h : '"' ∉ rest) : string? rest = none := by
  have hall : ∀ d ∈ rest, decide (d ≠ '"') = true := by
    rintro d hd
    rw [decide_eq_true_eq]
    rintro rfl
    exact h hd
  have hbody : rest.takeWhile (· ≠ '"') = rest := List.takeWhile_eq_self_iff.mpr hall
  unfold string?
  rw [hbody]
  simp

/-- A string literal is what stands in front of the next quote. -/
theorem string?_eq_some (h : string? rest = some lexeme) :
    ∃ body behind, '"' ∉ body ∧ rest = body ++ '"' :: behind ∧ lexeme = quoted body := by
  by_cases hquote : '"' ∈ rest
  · obtain ⟨body, behind, rfl, hbody⟩ := List.eq_append_cons_of_mem hquote
    rw [string?_quoted hbody] at h
    exact ⟨body, behind, hbody, rfl, (Option.some.inj h).symm⟩
  · rw [string?_of_unquoted hquote] at h
    cases h

theorem string?_append (h : string? rest = some lexeme) :
    string? (rest ++ behind) = some lexeme := by
  obtain ⟨body, more, hbody, rfl, rfl⟩ := string?_eq_some h
  rw [List.append_assoc, List.cons_append]
  exact string?_quoted hbody

theorem string?_append_of_unquoted (h : '"' ∉ behind) :
    string? (rest ++ behind) = string? rest := by
  by_cases hquote : '"' ∈ rest
  · obtain ⟨body, more, rfl, hbody⟩ := List.eq_append_cons_of_mem hquote
    rw [List.append_assoc, List.cons_append, string?_quoted hbody, string?_quoted hbody]
  · rw [string?_of_unquoted hquote, string?_of_unquoted]
    exact fun hmem ↦ (List.mem_append.mp hmem).elim hquote h

theorem read_quote (rest : List Char) : read afterOperand '"' rest =
    match string? rest with
    | some lexeme => .ok lexeme
    | none => .error .unterminatedString := by
  have hletter : isLetter '"' = false := by decide
  have hdecimal : isDecimal '"' = false := by decide
  rw [read, if_neg (by simp [hletter]), if_neg (by simp [hdecimal])]
  exact if_pos rfl

/-- A lexeme is read again before any text that is apart from it. -/
theorem read_append_of_ok (h : Apart behind) (hread : read afterOperand c rest = .ok lexeme) :
    read afterOperand c (rest ++ behind) = .ok lexeme := by
  by_cases hquote : c = '"'
  · subst hquote
    rw [read_quote] at hread ⊢
    cases hstring : string? rest with
    | none =>
      rw [hstring] at hread
      cases hread
    | some found =>
      rw [hstring] at hread
      rw [string?_append hstring]
      exact hread
  · rw [read_append h hquote, hread]

/-- Before a text without quotes no string literal comes to its end that did not before. -/
theorem read_append_of_unquoted (h : Apart behind) (hbehind : '"' ∉ behind) :
    read afterOperand c (rest ++ behind) = read afterOperand c rest := by
  by_cases hquote : c = '"'
  · subst hquote
    rw [read_quote, read_quote, string?_append_of_unquoted hbehind]
  · exact read_append h hquote

/-! A lexeme by itself is read as it is inside a text. -/

theorem word_word (source : List Char) : word (word source) = word source :=
  List.takeWhile_idem

theorem numeral_of_whole (h : ∀ d ∈ source, isDecimal d = true) : numeral source = source := by
  unfold numeral
  rw [List.takeWhile_eq_self_iff.mpr h, List.dropWhile_eq_nil_iff.mpr h]

theorem numeral_of_point {whole fraction : List Char} (hwhole : ∀ d ∈ whole, isDecimal d = true)
    (hfraction : ∀ d ∈ fraction, isDecimal d = true) :
    numeral (whole ++ '.' :: fraction) = whole ++ '.' :: fraction := by
  have hpoint : ¬ isDecimal '.' = true := by decide
  unfold numeral
  rw [List.dropWhile_append_of_pos hwhole, List.dropWhile_cons_of_neg hpoint,
    List.takeWhile_append_of_pos hwhole, List.takeWhile_cons_of_neg hpoint, List.append_nil]
  simp only [List.takeWhile_eq_self_iff.mpr hfraction]

/-- A numeral stands at the front of its text, and is the numeral at the front of itself. -/
theorem exists_numeral_append (source : List Char) :
    ∃ behind, source = numeral source ++ behind ∧ numeral (numeral source) = numeral source := by
  have hdigits (source : List Char) : ∀ d ∈ source.takeWhile isDecimal, isDecimal d = true :=
    fun d hd ↦ List.mem_takeWhile_imp hd
  have hsource : source.takeWhile isDecimal ++ source.dropWhile isDecimal = source :=
    List.takeWhile_append_dropWhile
  unfold numeral
  dsimp only
  split
  · next rest hrest =>
    refine ⟨rest.dropWhile isDecimal, ?_, numeral_of_point (hdigits source) (hdigits rest)⟩
    rw [List.append_assoc, List.cons_append, List.takeWhile_append_dropWhile, ← hrest, hsource]
  · exact ⟨_, hsource.symm, numeral_of_whole (hdigits source)⟩

theorem startsNumeral_append_of_starts (h : startsNumeral source = true) :
    startsNumeral (source ++ behind) = true := by
  cases source with
  | nil => cases h
  | cons d source => exact h

theorem startsNumeral_numeral (h : startsNumeral source = true) :
    startsNumeral (numeral source) = true := by
  cases source with
  | nil => cases h
  | cons d source =>
    obtain ⟨behind, hbehind, -⟩ := exists_numeral_append (d :: source)
    obtain ⟨e, more, hmore⟩ := List.exists_cons_of_ne_nil (numeral_ne_nil source h)
    rw [hmore] at hbehind ⊢
    rw [← (List.cons.inj hbehind).1]
    exact h

theorem symbol?_eq_some (h : symbol? c rest = some lexeme) :
    ∃ more behind, lexeme.span = c :: more ∧ rest = more ++ behind ∧
      symbol? c more = some lexeme := by
  unfold symbol? at h
  split at h
  · next pair hpair =>
    cases h
    obtain ⟨d, hd, hmap⟩ := Option.bind_eq_some_iff.mp hpair
    obtain ⟨kind, hkind, rfl⟩ := Option.map_eq_some_iff.mp hmap
    obtain ⟨behind, rfl⟩ := List.head?_eq_some_iff.mp hd
    exact ⟨[d], behind, rfl, rfl, by simp [symbol?, hkind]⟩
  · obtain ⟨kind, hkind, rfl⟩ := Option.map_eq_some_iff.mp h
    exact ⟨[], rest, rfl, rfl, by simp [symbol?, hkind]⟩

/-- A lexeme stands at the front of its text, and is the lexeme that its span is read as. -/
theorem read_span (h : read afterOperand c rest = .ok lexeme) :
    ∃ more behind, lexeme.span = c :: more ∧ rest = more ++ behind ∧
      read afterOperand c more = .ok lexeme := by
  unfold read at h
  split at h
  · next hletter =>
    cases h
    have hword : word (c :: rest) = c :: word rest :=
      List.takeWhile_cons_of_pos (isWordChar_of_isLetter c hletter)
    refine ⟨word rest, rest.dropWhile isWordChar, hword, List.takeWhile_append_dropWhile.symm, ?_⟩
    rw [read, if_pos hletter, ← hword, word_word]
  · next hletter =>
    split at h
    · next hdecimal =>
      cases h
      obtain ⟨behind, hbehind, hnumeral⟩ := exists_numeral_append (c :: rest)
      obtain ⟨d, more, hmore⟩ := List.exists_cons_of_ne_nil (numeral_ne_nil rest hdecimal)
      rw [hmore] at hbehind hnumeral
      obtain ⟨rfl, rfl⟩ := List.cons.inj hbehind
      refine ⟨more, behind, hmore, rfl, ?_⟩
      rw [read, if_neg hletter, if_pos hdecimal, hnumeral, hmore]
    · next hdecimal =>
      split at h
      · next hquote =>
        subst hquote
        cases hstring : string? rest with
        | none =>
          rw [hstring] at h
          cases h
        | some found =>
          rw [hstring] at h
          cases h
          obtain ⟨body, behind, hbody, rfl, rfl⟩ := string?_eq_some hstring
          refine ⟨body ++ ['"'], behind, rfl, by simp, ?_⟩
          rw [read_quote, string?_quoted hbody]
      · next hquote =>
        split at h
        · next kind hkind =>
          cases h
          refine ⟨[], rest, rfl, rfl, ?_⟩
          rw [read, if_neg hletter, if_neg hdecimal, if_neg hquote, hkind]
        · next hpunctuation =>
          split at h
          · next hminus =>
            cases h
            obtain ⟨behind, hbehind, hnumeral⟩ := exists_numeral_append rest
            refine ⟨numeral rest, behind, rfl, hbehind, ?_⟩
            rw [read, if_neg hletter, if_neg hdecimal, if_neg hquote, hpunctuation]
            dsimp only
            rw [if_pos ⟨hminus.1, startsNumeral_numeral hminus.2.1, hminus.2.2⟩, hnumeral]
          · next hminus =>
            split at h
            · next found hsymbol =>
              cases h
              obtain ⟨more, behind, hspan, rfl, hmore⟩ := symbol?_eq_some hsymbol
              refine ⟨more, behind, hspan, rfl, ?_⟩
              rw [read, if_neg hletter, if_neg hdecimal, if_neg hquote, hpunctuation]
              dsimp only
              rw [if_neg fun h ↦ hminus ⟨h.1, startsNumeral_append_of_starts h.2.1, h.2.2⟩, hmore]
            · cases h

theorem read_slash (rest : List Char) :
    read afterOperand '/' rest = .ok (plain .operator ['/']) := by
  have hletter : isLetter '/' = false := by decide
  have hdecimal : isDecimal '/' = false := by decide
  have hsymbol : symbol? '/' rest = some (plain .operator ['/']) := by
    cases rest <;> rfl
  simp [read, hletter, hdecimal, TokenKind.ofPunctuation?, hsymbol]

end Lexeme

end Reckoner
