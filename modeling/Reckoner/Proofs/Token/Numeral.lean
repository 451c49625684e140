import Mathlib.Data.List.TakeWhile
import Reckoner.Number.Reading
import Reckoner.Token.Lexeme

/-!
Numerals can be read. What the scan takes for a number, digits of any script with a point
among them or none and a minus sign in front of them or none, is the text of a number.
-/

set_option autoImplicit false
set_option relaxedAutoImplicit false

namespace Reckoner

namespace Number

open Text

/-- Whether the text consists of plain digits, at least one, and perhaps a point with more of
them behind it. -/
def IsNumeral (text : List Char) : Prop :=
  ∃ whole tail, text = whole ++ tail ∧ whole ≠ [] ∧ (∀ c ∈ whole, c.isDigit = true) ∧
    (tail = [] ∨ ∃ fraction, tail = '.' :: fraction ∧ ∀ c ∈ fraction, c.isDigit = true)

/-- A digit of any script becomes a plain one. -/
theorem isDigit_plainChar {c : Char} (h : isDecimal c = true) : (plainChar c).isDigit = true := by
  obtain ⟨value, hvalue⟩ := Option.isSome_iff_exists.mp h
  unfold plainChar
  by_cases hplain : c.toNat < 128
  · rw [decimalValue?, if_pos hplain] at hvalue
    rw [if_pos hplain]
    by_cases hdigit : c.isDigit = true
    · exact hdigit
    · rw [if_neg hdigit] at hvalue
      cases hvalue
  · have hless : value < 10 := by
      rw [decimalValue?, if_neg hplain] at hvalue
      obtain ⟨range, -, rfl⟩ := Option.map_eq_some_iff.mp hvalue
      exact Nat.mod_lt _ (by decide)
    rw [if_neg hplain, hvalue]
    dsimp only
    rw [Nat.isDigit_digitChar, decide_eq_true hless]

theorem IsNumeral.digit_or_point {text : List Char} (h : IsNumeral text) {c : Char}
    (hc : c ∈ text) : c.isDigit = true ∨ c = '.' := by
  obtain ⟨whole, tail, rfl, -, hwhole, htail⟩ := h
  rcases List.mem_append.mp hc with hc | hc
  · exact .inl (hwhole c hc)
  · rcases htail with rfl | ⟨fraction, rfl, hfraction⟩
    · cases hc
    · rcases List.mem_cons.mp hc with rfl | hc
      · exact .inr rfl
      · exact .inl (hfraction c hc)

theorem IsNumeral.exists_cons {text : List Char} (h : IsNumeral text) :
    ∃ c rest, text = c :: rest ∧ c.isDigit = true := by
  obtain ⟨whole, tail, rfl, hne, hwhole, -⟩ := h
  obtain ⟨c, rest, rfl⟩ := List.exists_cons_of_ne_nil hne
  exact ⟨c, rest ++ tail, rfl, hwhole c List.mem_cons_self⟩

theorem toNat_of_isDigit {c : Char} (h : c.isDigit = true) : 48 ≤ c.toNat ∧ c.toNat ≤ 57 := by
  simpa [Char.isDigit, UInt32.le_iff_toNat_le] using h

theorem toLower_of_isDigit {c : Char} (h : c.isDigit = true) : c.toLower = c := by
  have hbounds := toNat_of_isDigit h
  unfold Char.toLower
  rw [dif_neg]
  intro hupper
  have hlow : 65 ≤ c.toNat := UInt32.le_iff_toNat_le.mp hupper.1
  omega

theorem isMargin_of_isDigit {c : Char} (h : c.isDigit = true) : isMargin c = false := by
  have hbounds := toNat_of_isDigit h
  have hne : c ≠ ' ' := by
    rintro rfl
    cases h
  simp only [isMargin, hne, decide_false, Bool.false_or, Bool.and_eq_false_iff,
    decide_eq_false_iff_not]
  omega

/-- Nothing is trimmed off a text without margins. -/
theorem trimMargin_eq_self {text : List Char} (h : ∀ c ∈ text, isMargin c = false) :
    trimMargin text = text := by
  have hkeep {text : List Char} (h : ∀ c ∈ text, isMargin c = false) :
      text.dropWhile isMargin = text := by
    cases text with
    | nil => rfl
    | cons c rest => rw [List.dropWhile_cons_of_neg (by simp [h c List.mem_cons_self])]
  rw [trimMargin, hkeep h, hkeep fun c hc ↦ h c (List.mem_reverse.mp hc), List.reverse_reverse]

theorem joinDigits_eq_some {text : List Char} (h : '_' ∉ text) (behindDigit : Bool) :
    joinDigits behindDigit text = some text := by
  induction text generalizing behindDigit with
  | nil => cases behindDigit <;> rfl
  | cons c rest ih =>
    have hc : c ≠ '_' := fun hc ↦ h (hc ▸ List.mem_cons_self)
    have hrest := ih (fun hrest ↦ h (List.mem_cons_of_mem c hrest)) c.isDigit
    cases behindDigit <;> simp [joinDigits, hc, hrest]

/-- Digits write their number. -/
theorem readDecimal?_of_whole {whole : List Char} (hne : whole ≠ [])
    (hwhole : ∀ c ∈ whole, c.isDigit = true) :
    readDecimal? whole = some ⟨digitsValue whole, 0⟩ := by
  have htake : whole.takeWhile Char.isDigit = whole := List.takeWhile_eq_self_iff.mpr hwhole
  have hdrop : whole.dropWhile Char.isDigit = [] := List.dropWhile_eq_nil_iff.mpr hwhole
  simp [readDecimal?, htake, hdrop, hne, readExponent?]

/-- Digits with a point among them write their number, divided by a power of ten. -/
theorem readDecimal?_of_point {whole fraction : List Char} (hne : whole ≠ [])
    (hwhole : ∀ c ∈ whole, c.isDigit = true) (hfraction : ∀ c ∈ fraction, c.isDigit = true) :
    readDecimal? (whole ++ '.' :: fraction) =
      some ⟨digitsValue (whole ++ fraction), -(fraction.length : Int)⟩ := by
  have hpoint : Char.isDigit '.' = false := rfl
  have htake : (whole ++ '.' :: fraction).takeWhile Char.isDigit = whole := by
    rw [List.takeWhile_append_of_pos hwhole, List.takeWhile_cons_of_neg (by simp [hpoint]),
      List.append_nil]
  have hdrop : (whole ++ '.' :: fraction).dropWhile Char.isDigit = '.' :: fraction := by
    rw [List.dropWhile_append_of_pos hwhole, List.dropWhile_cons_of_neg (by simp [hpoint])]
  have hall : fraction.takeWhile Char.isDigit = fraction :=
    List.takeWhile_eq_self_iff.mpr hfraction
  simp [readDecimal?, htake, hdrop, hall, hne, readExponent?]

theorem isSome_readDecimal? {text : List Char} (h : IsNumeral text) :
    (readDecimal? text).isSome = true := by
  obtain ⟨whole, tail, rfl, hne, hwhole, rfl | ⟨fraction, rfl, hfraction⟩⟩ := h
  · rw [List.append_nil, readDecimal?_of_whole hne hwhole]
    rfl
  · rw [readDecimal?_of_point hne hwhole hfraction]
    rfl

/-- A numeral has no letters to make a word of. -/
theorem readSize?_of_isNumeral {text : List Char} (h : IsNumeral text) (negative : Bool) :
    readSize? negative text = (readDecimal? text).map (Decimal.toFloat negative) := by
  have hword {c : Char} {word : List Char} (hhead : word.head? = some c)
      (hc : c.isDigit = false ∧ c ≠ '.') : text.map Char.toLower ≠ word := by
    intro heq
    obtain ⟨rest, rfl⟩ := List.head?_eq_some_iff.mp hhead
    obtain ⟨d, more, rfl, hd, -⟩ := List.map_eq_cons_iff.mp heq
    have hlower : d.toLower = d := by
      rcases h.digit_or_point List.mem_cons_self with hdigit | rfl
      · exact toLower_of_isDigit hdigit
      · rfl
    rw [hlower] at hd
    subst hd
    rcases h.digit_or_point List.mem_cons_self with hdigit | hpoint
    · rw [hc.1] at hdigit
      cases hdigit
    · exact hc.2 hpoint
  unfold readSize?
  dsimp only
  have hletter : Char.isDigit 'i' = false ∧ 'i' ≠ '.' := by decide
  rw [if_neg fun hor ↦ hor.elim (hword rfl hletter) (hword rfl hletter),
    if_neg (hword (c := 'n') rfl (by decide))]

/-- A numeral with its sign is read as the numeral. -/
theorem read?_of_isNumeral {text : String} {numeral : List Char} (negative : Bool)
    (htext : text.toList.map plainChar = (if negative then ['-'] else []) ++ numeral)
    (hnumeral : IsNumeral numeral) :
    read? text = (readDecimal? numeral).map (Decimal.toFloat negative) := by
  have hchars : ∀ c ∈ (if negative then ['-'] else []) ++ numeral,
      c.isDigit = true ∨ c = '.' ∨ c = '-' := by
    intro c hc
    rcases List.mem_append.mp hc with hc | hc
    · cases negative with
      | false => cases hc
      | true => exact .inr (.inr (List.mem_singleton.mp hc))
    · exact (hnumeral.digit_or_point hc).imp_right .inl
  have hmargin : ∀ c ∈ (if negative then ['-'] else []) ++ numeral, isMargin c = false := by
    intro c hc
    rcases hchars c hc with hdigit | rfl | rfl
    · exact isMargin_of_isDigit hdigit
    · rfl
    · rfl
  have hunderscore : '_' ∉ (if negative then ['-'] else []) ++ numeral := by
    intro hc
    rcases hchars _ hc with h | h | h <;> cases h
  have hsplit : splitSign ((if negative then ['-'] else []) ++ numeral) = (negative, numeral) := by
    cases negative with
    | true => rfl
    | false =>
      obtain ⟨c, rest, rfl, hdigit⟩ := hnumeral.exists_cons
      unfold splitSign
      split
      · next heq =>
        cases heq
        cases hdigit
      · next heq =>
        cases heq
        cases hdigit
      · rfl
  rw [read?, htext, trimMargin_eq_self hmargin, joinDigits_eq_some hunderscore, Option.bind_some,
    hsplit]
  exact readSize?_of_isNumeral hnumeral negative

theorem isSome_read? {text : String} (h : ∃ sign numeral,
    text.toList.map plainChar = sign ++ numeral ∧ (sign = [] ∨ sign = ['-']) ∧ IsNumeral numeral) :
    (read? text).isSome = true := by
  obtain ⟨sign, numeral, htext, hsign, hnumeral⟩ := h
  obtain ⟨negative, rfl⟩ : ∃ negative, sign = if negative = true then ['-'] else [] := by
    rcases hsign with rfl | rfl
    · exact ⟨false, rfl⟩
    · exact ⟨true, rfl⟩
  rw [read?_of_isNumeral negative htext hnumeral, Option.isSome_map]
  exact isSome_readDecimal? hnumeral

end Number

namespace Lexeme

open Text Number

/-- The numeral at the front of a text that starts with a digit. -/
theorem isNumeral_numeral {source : List Char} (h : startsNumeral source = true) :
    IsNumeral ((numeral source).map plainChar) := by
  have hdigits (source : List Char) :
      ∀ c ∈ (source.takeWhile isDecimal).map plainChar, c.isDigit = true := by
    intro c hc
    obtain ⟨digit, hdigit, rfl⟩ := List.mem_map.mp hc
    exact isDigit_plainChar (List.all_eq_true.mp List.all_takeWhile digit hdigit)
  have hne : (source.takeWhile isDecimal).map plainChar ≠ [] := by
    cases source with
    | nil => cases h
    | cons c rest =>
      have hc : isDecimal c = true := h
      rw [List.takeWhile_cons_of_pos hc]
      exact List.cons_ne_nil _ _
  unfold numeral
  dsimp only
  split
  · next rest _ =>
    refine ⟨_, '.' :: (rest.takeWhile isDecimal).map plainChar, ?_, hne, hdigits source,
      .inr ⟨_, rfl, hdigits rest⟩⟩
    rw [List.map_append, List.map_cons]
    rfl
  · exact ⟨_, [], (List.append_nil _).symm, hne, hdigits source, .inl rfl⟩

end Lexeme

end Reckoner
