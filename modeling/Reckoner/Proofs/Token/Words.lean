import Reckoner.Proofs.Number.Text
import Reckoner.Proofs.Token.Names

/-!
Single tokens in front of a text whose tokens are known: punctuation in front of any text, and
words, numbers, strings and signs in front of a text that is apart from them. All prints are
closed here.
-/

set_option autoImplicit false
set_option relaxedAutoImplicit false

namespace Reckoner

open Text

/-- A plain digit is a decimal digit, and neither letter nor blank. -/
theorem Text.classes_of_isDigit {c : Char} (h : c.isDigit = true) :
    isLetter c = false ∧ isDecimal c = true ∧ isBlank c = false := by
  have hbounds := Number.toNat_of_isDigit h
  have hplain : c.toNat < 128 := by omega
  have hdecimal : isDecimal c = true := by simp [isDecimal, decimalValue?, hplain, h]
  have hletter : isLetter c = false := by
    rw [Bool.eq_false_iff]
    intro hletter
    have := toNat_of_isLetter hletter
    omega
  have hblank : isBlank c = false := by
    rw [Bool.eq_false_iff]
    intro hblank
    have := toNat_of_isBlank hblank
    omega
  exact ⟨hletter, hdecimal, hblank⟩

namespace Lexeme

/-- What a character of punctuation is not. -/
theorem classes_of_punctuation {c : Char} {kind : TokenKind}
    (h : TokenKind.ofPunctuation? c = some kind) :
    isLetter c = false ∧ isDecimal c = false ∧ isBlank c = false ∧ c ≠ '"' ∧ c ≠ '/' ∧
      kind ≠ .functionWord ∧ kind ≠ .printWord := by
  unfold TokenKind.ofPunctuation? at h
  split at h <;> cases h <;> decide

/-- Punctuation is a lexeme by itself, whatever stands behind it. -/
theorem read_punctuation {c : Char} {kind : TokenKind} (afterOperand : Bool) (rest : List Char)
    (h : TokenKind.ofPunctuation? c = some kind) :
    read afterOperand c rest = .ok (plain kind [c]) := by
  obtain ⟨hletter, hdecimal, -, hquote, -⟩ := classes_of_punctuation h
  simp [read, hletter, hdecimal, hquote, h]

/-- A numeral is read up to its end. -/
theorem numeral_of_isNumeral {text : List Char} (h : Number.IsNumeral text) :
    numeral text = text := by
  obtain ⟨whole, tail, rfl, -, hwhole, rfl | ⟨fraction, rfl, hfraction⟩⟩ := h
  · rw [List.append_nil]
    exact numeral_of_whole fun d hd ↦ (classes_of_isDigit (hwhole d hd)).2.1
  · exact numeral_of_point (fun d hd ↦ (classes_of_isDigit (hwhole d hd)).2.1)
      fun d hd ↦ (classes_of_isDigit (hfraction d hd)).2.1

end Lexeme

namespace Scan

variable {limit : Nat} {afterOperand : Bool} {behind : List Char}
  {spellings : List (TokenKind × String)}

theorem Spells.punctuation {c : Char} {kind : TokenKind} {text : String}
    (hkind : TokenKind.ofPunctuation? c = some kind) (htext : String.ofList [c] = text)
    (h : Spells limit [] kind.endsOperand behind spellings) :
    Spells limit [] afterOperand (c :: behind) ((kind, text) :: spellings) := by
  obtain ⟨-, -, hblank, -, hslash, hfunction, hprint⟩ := Lexeme.classes_of_punctuation hkind
  have hlayout : Cursor.layout false (c :: behind) = [] := by
    rw [Cursor.layout.eq_4, if_neg (by simp [hblank])]
    exact fun rest hc ↦ absurd hc hslash
  rw [← htext]
  have hread := Lexeme.read_punctuation afterOperand ([] ++ behind) hkind
  exact Spells.lexeme hread rfl hlayout hfunction hprint h

/-- A lexeme that is read by itself stands in front of a text that is apart from it. -/
theorem Spells.alone {c : Char} {more : List Char} {kind : TokenKind} {text : List Char}
    (hread : Lexeme.read afterOperand c more = .ok ⟨kind, text, c :: more⟩)
    (hblank : isBlank c = false) (hfunction : kind ≠ .functionWord) (hprint : kind ≠ .printWord)
    (hbehind : Apart behind) (h : Spells limit [] kind.endsOperand behind spellings) :
    Spells limit [] afterOperand (c :: (more ++ behind))
      ((kind, String.ofList text) :: spellings) :=
  Spells.lexeme (Lexeme.read_append_of_ok hbehind hread) rfl
    (layout_lexeme hblank hread rfl hbehind) hfunction hprint h

/-- A word stands in front of a text. -/
theorem Spells.word {text : String} {kind : TokenKind} (hname : Header.IsName text.toList)
    (hkind : TokenKind.ofWord text = kind) (hfunction : kind ≠ .functionWord)
    (hprint : kind ≠ .printWord) (hbehind : Apart behind)
    (h : Spells limit [] kind.endsOperand behind spellings) :
    Spells limit [] afterOperand (text.toList ++ behind) ((kind, text) :: spellings) := by
  obtain ⟨c, more, htext, hletter, hword⟩ := hname
  have hread : Lexeme.read afterOperand c more = .ok ⟨kind, text.toList, c :: more⟩ := by
    rw [htext] at hword
    rw [Lexeme.read, if_pos hletter, hword, ← htext]
    dsimp only
    rw [String.ofList_toList, hkind]
    rfl
  have hspells := Spells.alone hread (isBlank_of_isLetter hletter) hfunction hprint hbehind h
  rwa [String.ofList_toList, ← List.cons_append, ← htext] at hspells

/-- A number stands in front of a text, with its sign where no operand has ended. -/
theorem Spells.number {x : Float} {text : String} (htext : Number.WrittenAs x text)
    (hbehind : Apart behind) (h : Spells limit [] true behind spellings) :
    Spells limit [] false (text.toList ++ behind) ((.number, text) :: spellings) := by
  obtain ⟨negative, numeral, htext, hnumeral, -⟩ := htext
  have hwhole := Lexeme.numeral_of_isNumeral hnumeral
  obtain ⟨c, more, rfl, hdigit⟩ := hnumeral.exists_cons
  obtain ⟨hletter, hdecimal, hblank⟩ := classes_of_isDigit hdigit
  cases negative with
  | false =>
    have hread : Lexeme.read false c more = .ok ⟨.number, text.toList, c :: more⟩ := by
      rw [Lexeme.read, if_neg (by simp [hletter]), if_pos hdecimal, hwhole, htext]
      rfl
    have hspells := Spells.alone hread hblank (by decide) (by decide) hbehind h
    rw [String.ofList_toList] at hspells
    rw [htext]
    exact hspells
  | true =>
    have hread : Lexeme.read false '-' (c :: more) =
        .ok ⟨.number, text.toList, '-' :: c :: more⟩ := by
      rw [Lexeme.read, if_neg (by decide), if_neg (by decide), if_neg (by decide)]
      have hpunctuation : TokenKind.ofPunctuation? '-' = none := rfl
      rw [hpunctuation]
      dsimp only
      rw [if_pos ⟨rfl, hdecimal, by decide⟩, hwhole, htext]
      rfl
    have hspells := Spells.alone hread (by decide) (by decide) (by decide) hbehind h
    rw [String.ofList_toList] at hspells
    rw [htext]
    exact hspells

/-- A string stands in front of a text. -/
theorem Spells.quoted {content : String} (hquote : '"' ∉ content.toList) (hbehind : Apart behind)
    (h : Spells limit [] true behind spellings) :
    Spells limit [] afterOperand ('"' :: (content.toList ++ '"' :: behind))
      ((.string, content) :: spellings) := by
  have hread : Lexeme.read afterOperand '"' (content.toList ++ ['"']) =
      .ok (Lexeme.quoted content.toList) := by
    rw [Lexeme.read_quote, Lexeme.string?_quoted hquote]
  have hspells := Spells.alone hread (by decide) (by decide) (by decide) hbehind h
  rwa [String.ofList_toList, List.append_assoc] at hspells

end Scan

end Reckoner
