import Reckoner.Proofs.Token.FlatScan
import Reckoner.Proofs.Token.HeaderGrammar

/-!
Exchanging what is behind a step. A step of the scan reads the text up to where it comes to, and
of the text from there on it sees the first character at most. So another text may stand there
instead that starts with the same character, or with one that nothing in front of it goes on with:
the step reads the same tokens at the same positions, and the scan goes on with the other text.
-/

set_option autoImplicit false
set_option relaxedAutoImplicit false

namespace Reckoner

open Text

/-- Whether the second text may stand in the place of the first one, for all that what is in front
of them can tell. -/
def Replaces (behind other : List Char) : Prop :=
  other.head? = behind.head? ∨ Apart other

variable {behind other piece : List Char}

theorem Replaces.append (h : Replaces behind other) (front : List Char) :
    Replaces (front ++ behind) (front ++ other) := by
  cases front with
  | nil => exact h
  | cons c front => exact .inl rfl

theorem Replaces.isWordChar_eq_false (h : Replaces behind other)
    (hbehind : ∀ d ∈ behind.head?, isWordChar d = false) :
    ∀ d ∈ other.head?, isWordChar d = false := by
  rcases h with hhead | hapart
  · rwa [hhead]
  · exact fun d hd ↦ (hapart d hd).1

/-! ### Lexemes -/

theorem head_of_takeWhile {taken : Char → Bool} (h : (piece ++ behind).takeWhile taken = piece) :
    ∀ d ∈ behind.head?, taken d = false := by
  have hsplit : (piece ++ behind).takeWhile taken ++ (piece ++ behind).dropWhile taken =
      piece ++ behind := List.takeWhile_append_dropWhile
  rw [h] at hsplit
  rw [← List.append_cancel_left hsplit]
  exact Lexeme.head_of_dropWhile

namespace Lexeme

variable {afterOperand : Bool} {c : Char} {more : List Char} {lexeme : Lexeme}

theorem word_of_head (hhead : other.head? = behind.head?) (h : word (piece ++ behind) = piece) :
    word (piece ++ other) = piece := by
  have hpiece : ∀ d ∈ piece, isWordChar d = true := fun d hd ↦ List.mem_takeWhile_imp (h.symm ▸ hd)
  rw [word, takeWhile_append_of_head (hhead ▸ head_of_takeWhile h),
    List.takeWhile_eq_self_iff.mpr hpiece]

theorem numeral_whole_append (hpiece : ∀ d ∈ piece, isDecimal d = true)
    (hother : ∀ d ∈ other.head?, isDecimal d = false ∧ d ≠ '.') :
    numeral (piece ++ other) = piece := by
  have hdecimal : ∀ d ∈ other.head?, isDecimal d = false := fun d hd ↦ (hother d hd).1
  unfold numeral
  rw [takeWhile_append_of_head hdecimal, dropWhile_append_of_head hdecimal,
    List.takeWhile_eq_self_iff.mpr hpiece, List.dropWhile_eq_nil_iff.mpr hpiece, List.nil_append]
  dsimp only
  split
  · exact absurd rfl (hother '.' rfl).2
  · rfl

theorem numeral_point_append {whole fraction : List Char}
    (hwhole : ∀ d ∈ whole, isDecimal d = true) (hfraction : ∀ d ∈ fraction, isDecimal d = true)
    (hother : ∀ d ∈ other.head?, isDecimal d = false) :
    numeral (whole ++ '.' :: fraction ++ other) = whole ++ '.' :: fraction := by
  have hpoint : ¬ isDecimal '.' = true := by decide
  rw [List.append_assoc, List.cons_append]
  unfold numeral
  rw [List.dropWhile_append_of_pos hwhole, List.dropWhile_cons_of_neg hpoint,
    List.takeWhile_append_of_pos hwhole, List.takeWhile_cons_of_neg hpoint, List.append_nil]
  simp only [takeWhile_append_of_head hother, List.takeWhile_eq_self_iff.mpr hfraction]

theorem numeral_of_head (hhead : other.head? = behind.head?)
    (h : numeral (piece ++ behind) = piece) : numeral (piece ++ other) = piece := by
  have hdigits (source : List Char) : ∀ d ∈ source.takeWhile isDecimal, isDecimal d = true :=
    fun d hd ↦ List.mem_takeWhile_imp hd
  have hsplit : (piece ++ behind).takeWhile isDecimal ++ (piece ++ behind).dropWhile isDecimal =
      piece ++ behind := List.takeWhile_append_dropWhile
  have hdecimal : ∀ d ∈ behind.head?, isDecimal d = false :=
    head_of_numeral (congrArg (· ++ behind) h.symm)
  unfold numeral at h
  dsimp only at h
  split at h
  · rw [← h]
    exact numeral_point_append (hdigits _) (hdigits _) (hhead ▸ hdecimal)
  · next hpoint =>
    rw [h] at hsplit
    rw [List.append_cancel_left hsplit] at hpoint
    refine numeral_whole_append (h ▸ hdigits _) (hhead ▸ fun d hd ↦ ⟨hdecimal d hd, ?_⟩)
    rintro rfl
    obtain ⟨rest, hrest⟩ := List.head?_eq_some_iff.mp hd
    exact hpoint rest hrest

theorem startsNumeral_of_head (hhead : other.head? = behind.head?) :
    startsNumeral (piece ++ other) = startsNumeral (piece ++ behind) := by
  have hstarts (text : List Char) : startsNumeral text = text.head?.any isDecimal := by
    cases text <;> rfl
  rw [hstarts, hstarts, List.head?_append, List.head?_append, hhead]

theorem symbol?_of_head (hhead : other.head? = behind.head?) :
    symbol? c (piece ++ other) = symbol? c (piece ++ behind) := by
  simp only [symbol?, List.head?_append, hhead]

/-- A lexeme is read again before a text that starts with the same character. -/
theorem read_of_head (hhead : other.head? = behind.head?)
    (h : read afterOperand c (more ++ behind) = .ok lexeme) (hspan : lexeme.span = c :: more) :
    read afterOperand c (more ++ other) = .ok lexeme := by
  unfold read at h
  split at h
  · next hletter =>
    cases h
    have hword : word (c :: more ++ other) = c :: more := word_of_head hhead hspan
    have hsame : word (c :: (more ++ behind)) = c :: more := hspan
    rw [read, if_pos hletter, ← List.cons_append, hword, hsame]
  · next hletter =>
    split at h
    · next hdecimal =>
      cases h
      have hnumeral : numeral (c :: more ++ other) = c :: more := numeral_of_head hhead hspan
      have hsame : numeral (c :: (more ++ behind)) = c :: more := hspan
      rw [read, if_neg hletter, if_pos hdecimal, ← List.cons_append, hnumeral, hsame]
    · next hdecimal =>
      split at h
      · next hquote =>
        subst hquote
        split at h
        · next hstring =>
          cases h
          obtain ⟨body, behind', hbody, -, rfl⟩ := string?_eq_some hstring
          obtain rfl : body ++ ['"'] = more := (List.cons.inj hspan).2
          rw [read_quote, List.append_assoc, List.singleton_append, string?_quoted hbody]
        · cases h
      · next hquote =>
        rw [read, if_neg hletter, if_neg hdecimal, if_neg hquote, startsNumeral_of_head hhead,
          symbol?_of_head hhead]
        split at h
        · cases h
          rfl
        · split at h
          · next hminus =>
            cases h
            have hsame : numeral (more ++ behind) = more := (List.cons.inj hspan).2
            rw [if_pos hminus, numeral_of_head hhead hsame, hsame]
          · next hminus =>
            rw [if_neg hminus]
            exact h

/-- A lexeme is read again before every text that may stand behind it. -/
theorem read_replaces (hother : Replaces behind other)
    (h : read afterOperand c (more ++ behind) = .ok lexeme) (hspan : lexeme.span = c :: more) :
    read afterOperand c (more ++ other) = .ok lexeme := by
  rcases hother with hhead | hapart
  · exact read_of_head hhead h hspan
  · obtain ⟨own, -, hown, -, halone⟩ := read_span h
    obtain rfl : own = more := (List.cons.inj (hown.symm.trans hspan)).2
    exact read_append_of_ok hapart halone

end Lexeme

namespace Cursor

/-- Where no layout starts, none starts before another text that may stand behind. -/
theorem layout_replaces {c : Char} {more : List Char} (hother : Replaces behind other)
    (h : layout false (c :: (more ++ behind)) = []) :
    layout false (c :: (more ++ other)) = [] := by
  obtain ⟨hblank, hslash⟩ := layout_eq_nil_iff.mp h
  refine layout_eq_nil_iff.mpr ⟨hblank, fun hc ↦ ?_⟩
  rcases hother.append more with hhead | hapart
  · rw [hhead]
    exact hslash hc
  · exact fun hhead ↦ (hapart '/' hhead).2.2.2.2 rfl

end Cursor

/-! ### Headers and prints -/

namespace Header

variable {here next : Cursor} {tokens : List Token}

theorem IsHeader.replaces {pos : Pos} {text : List Char} (h : IsHeader pos text behind tokens)
    (hother : Replaces behind other) : IsHeader pos text other tokens := by
  cases h with
  | mk hname hlist harrow =>
    refine .mk hname hlist ?_
    cases harrow with
    | sign hblanks => exact .sign hblanks
    | word hblanks hbehind => exact .word hblanks (hother.isWordChar_eq_false hbehind)

/-- A header is read again before every text that may stand behind it. -/
theorem read_replaces (h : read here = .ok (tokens, next)) : ∃ text,
    here.Passes text next ∧ ∀ other, Replaces next.rest other →
      read ⟨text ++ other, here.pos⟩ = .ok (tokens, ⟨other, next.pos⟩) := by
  obtain ⟨text, hheader, hpasses⟩ := exists_isHeader h
  refine ⟨text, hpasses, fun other hother ↦ ?_⟩
  rw [(hheader.replaces hother).read_eq ⟨text ++ other, here.pos⟩ rfl, hpasses.next]
  simp [Cursor.skip]

end Header

namespace Scan

variable {limit : Nat} {opens : List OpenPrint} {afterOperand : Bool} {here next : Cursor}
  {c : Char} {rest : List Char} {found : Step}

/-- The parenthesis behind a print is read again before every text. -/
theorem printParen_replaces {paren : Token} (h : printParen here = .ok (paren, next)) : ∃ text,
    here.Passes text next ∧ ∀ other,
      printParen ⟨text ++ other, here.pos⟩ = .ok (paren, ⟨other, next.pos⟩) := by
  obtain ⟨blanks, behind, hrest, hblanks, rfl, rfl⟩ := printParen_eq_ok_iff.mp h
  have hpasses : here.Passes blanks (here.skip blanks) := ⟨⟨_, hrest.symm⟩, rfl⟩
  refine ⟨blanks ++ ['('], hpasses.trans (Cursor.passes_char (Cursor.rest_skip hrest)),
    fun other ↦ printParen_eq_ok_iff.mpr ⟨blanks, other, ?_, hblanks, ?_, ?_⟩⟩
  all_goals simp [Cursor.skip]

/-- A step is taken again before every text that may stand behind it. -/
theorem step_replaces (hrest : here.rest = c :: rest)
    (h : step limit opens afterOperand here c rest = .ok found) : ∃ more,
      here.Passes (c :: more) found.next ∧ ∀ other, Replaces found.next.rest other →
        step limit opens afterOperand ⟨c :: (more ++ other), here.pos⟩ c (more ++ other) =
          .ok { found with next := ⟨other, found.next.pos⟩ } := by
  obtain ⟨lexeme, hread, hfound⟩ := step_eq_ok_iff.mp h
  obtain ⟨own, behind, hspan, rfl, -⟩ := Lexeme.read_span hread
  have hpasses : here.Passes (c :: own) (here.skip lexeme.span) :=
    ⟨⟨behind, by rw [hrest, List.cons_append]⟩, by rw [hspan]⟩
  have hbehind : (here.skip lexeme.span).rest = behind :=
    Cursor.rest_skip (by rw [hrest, hspan, List.cons_append])
  have hskip (more : List Char) : (Cursor.mk (c :: (own ++ more)) here.pos).skip lexeme.span =
      ⟨more, (here.skip lexeme.span).pos⟩ := by
    simp [Cursor.skip, hspan]
  rcases hfound with ⟨hfunction, hprint, rfl⟩ | ⟨hkind, header, next, hheader, rfl⟩ |
    ⟨hkind, hlimit, paren, next, hparen, rfl⟩
  · refine ⟨own, hpasses, fun other hother ↦ step_eq_ok_iff.mpr ⟨lexeme, ?_, .inl
      ⟨hfunction, hprint, ?_⟩⟩⟩
    · exact Lexeme.read_replaces (hbehind ▸ hother) hread hspan
    · rw [hskip]
  · obtain ⟨text, htext, hagain⟩ := Header.read_replaces hheader
    obtain rfl := hbehind.symm.trans htext.rest_eq
    refine ⟨own ++ text, hpasses.trans htext, fun other hother ↦ step_eq_ok_iff.mpr
      ⟨lexeme, ?_, .inr (.inl ⟨hkind, header, ⟨other, next.pos⟩, ?_, rfl⟩)⟩⟩
    · rw [List.append_assoc]
      exact Lexeme.read_replaces (hother.append text) hread hspan
    · rw [List.append_assoc, hskip]
      exact hagain other hother
  · obtain ⟨text, htext, hagain⟩ := printParen_replaces hparen
    obtain rfl := hbehind.symm.trans htext.rest_eq
    refine ⟨own ++ text, hpasses.trans htext, fun other hother ↦ step_eq_ok_iff.mpr
      ⟨lexeme, ?_, .inr (.inr ⟨hkind, hlimit, paren, ⟨other, next.pos⟩, ?_, rfl⟩)⟩⟩
    · rw [List.append_assoc]
      exact Lexeme.read_replaces (hother.append text) hread hspan
    · rw [List.append_assoc, hskip]
      exact hagain other

end Scan

end Reckoner
