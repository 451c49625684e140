import Reckoner.Proofs.Number.Shortest
import Reckoner.Proofs.Token.Numeral
import Reckoner.Value

/-!
Written numbers read back. A finite double that is an integer has all its digits as a literal,
and one that is not small is written with a point; what such a literal is read as is the double
again. The sign of zero is not written.
-/

set_option autoImplicit false
set_option relaxedAutoImplicit false

namespace Reckoner.Number

/-- Whether the double is finite and an integer or at least `0.0001` in size, and no negative
zero. Its literal has no exponent. -/
def isPlain (x : Float) : Bool :=
  match shape x with
  | .finite negative units =>
    (units ≠ 0 || ! negative) && (units % unitsInOne = 0 || unitsInOne ≤ 10000 * units)
  | _ => false

theorem exists_of_isPlain {x : Float} (h : isPlain x = true) :
    ∃ negative units, shape x = .finite negative units ∧ (units = 0 → negative = false) ∧
      (units % unitsInOne = 0 ∨ unitsInOne ≤ 10000 * units) := by
  unfold isPlain at h
  split at h
  · next negative units hshape =>
    simp only [Bool.and_eq_true, Bool.or_eq_true, decide_eq_true_eq, Bool.not_eq_true'] at h
    exact ⟨negative, units, hshape, fun hzero ↦ h.1.resolve_left fun hne ↦ hne hzero, h.2⟩
  · cases h

/-! ### Digits -/

theorem isDigit_of_mem_digits {n : Nat} : ∀ c ∈ digits n, c.isDigit = true :=
  fun _ hc ↦ Nat.isDigit_of_mem_toDigits (by decide) (by decide) hc

theorem digits_ne_nil (n : Nat) : digits n ≠ [] := Nat.toDigits_ne_nil

theorem digitsValue_digits (n : Nat) : digitsValue (digits n) = n := Nat.ofDigitChars_ten_toDigits

/-- Zeros in front of digits do not change their number. -/
theorem digitsValue_zeros (count : Nat) (row : List Char) :
    digitsValue (List.replicate count '0' ++ row) = digitsValue row := by
  have hrow : digitsValue (List.replicate count '0' ++ row) =
      Nat.ofDigitChars 10 (List.replicate count '0' ++ row) 0 := rfl
  rw [hrow, Nat.ofDigitChars_append, Nat.ofDigitChars_replicate_zero, Nat.mul_zero]
  rfl

/-- Zeros behind digits multiply their number by a power of ten. -/
theorem digitsValue_append_zeros (row : List Char) (count : Nat) :
    digitsValue (row ++ List.replicate count '0') = digitsValue row * 10 ^ count := by
  have hrow : digitsValue (row ++ List.replicate count '0') =
      Nat.ofDigitChars 10 (row ++ List.replicate count '0') 0 := rfl
  rw [hrow, Nat.ofDigitChars_append, Nat.ofDigitChars_replicate_zero, Nat.mul_comm]
  rfl

theorem isDigit_of_mem_zeros (count : Nat) : ∀ c ∈ List.replicate count '0', c.isDigit = true := by
  intro c hc
  rw [(List.mem_replicate.mp hc).2]
  rfl

/-! ### Positional text -/

/-- Digits with a point among them are read as the decimal that they write. -/
theorem readDecimal?_positional (d : Decimal) :
    IsNumeral (Layout.positional (digits d.coefficient) d.point) ∧
      ∃ again, readDecimal? (Layout.positional (digits d.coefficient) d.point) = some again ∧
        ∀ negative, again.toFloat negative = d.toFloat negative := by
  have hrow := isDigit_of_mem_digits (n := d.coefficient)
  have hne := digits_ne_nil d.coefficient
  have hpoint : d.point = (digits d.coefficient).length + d.exponent := rfl
  unfold Layout.positional
  split
  · next hfront =>
    have hzero : ∀ c ∈ ['0'], c.isDigit = true := List.forall_mem_singleton.mpr rfl
    have hfraction := List.forall_mem_append.mpr
      ⟨isDigit_of_mem_zeros (-d.point).toNat, hrow⟩
    refine ⟨⟨['0'], _, rfl, List.cons_ne_nil _ _, hzero, .inr ⟨_, rfl, hfraction⟩⟩, d, ?_,
      fun _ ↦ rfl⟩
    refine (readDecimal?_of_point (List.cons_ne_nil _ _) hzero hfraction).trans ?_
    have hvalue : digitsValue (['0'] ++ (List.replicate (-d.point).toNat '0' ++
        digits d.coefficient)) = d.coefficient := by
      rw [← List.append_assoc, ← List.replicate_one, List.replicate_append_replicate,
        digitsValue_zeros, digitsValue_digits]
    rw [hvalue, List.length_append, List.length_replicate]
    congr
    omega
  · split
    · next hlong =>
      have hwhole := List.forall_mem_append.mpr ⟨hrow,
        isDigit_of_mem_zeros (d.point.toNat - (digits d.coefficient).length)⟩
      have hzero : ∀ c ∈ ['0'], c.isDigit = true := List.forall_mem_singleton.mpr rfl
      refine ⟨⟨_, _, rfl, by simp [hne], hwhole, .inr ⟨['0'], rfl, hzero⟩⟩, _,
        readDecimal?_of_point (by simp [hne]) hwhole hzero, fun negative ↦ ?_⟩
      have hscale := Decimal.toFloat_mul_pow negative d.coefficient d.exponent
        (d.point.toNat - (digits d.coefficient).length + 1)
      rw [← List.replicate_one, List.append_assoc, List.replicate_append_replicate,
        digitsValue_append_zeros, digitsValue_digits, ← hscale]
      congr
      simp
      omega
    · next hlong =>
      have hwhole : ∀ c ∈ (digits d.coefficient).take d.point.toNat, c.isDigit = true :=
        fun c hc ↦ hrow c (List.mem_of_mem_take hc)
      have hfraction : ∀ c ∈ (digits d.coefficient).drop d.point.toNat, c.isDigit = true :=
        fun c hc ↦ hrow c (List.mem_of_mem_drop hc)
      have htake : (digits d.coefficient).take d.point.toNat ≠ [] := by
        rw [Ne, List.take_eq_nil_iff]
        rintro (h | h)
        · omega
        · exact hne h
      refine ⟨⟨_, _, rfl, htake, hwhole, .inr ⟨_, rfl, hfraction⟩⟩, d, ?_, fun _ ↦ rfl⟩
      rw [readDecimal?_of_point htake hwhole hfraction, List.take_append_drop,
        digitsValue_digits, List.length_drop]
      congr
      omega

/-! ### Literals -/

/-- The characters of a signed numeral are plain. -/
theorem map_plainChar {numeral : List Char} (negative : Bool) (h : IsNumeral numeral) :
    ((if negative then ['-'] else []) ++ numeral).map plainChar =
      (if negative then ['-'] else []) ++ numeral := by
  refine (List.map_congr_left (g := id) fun c hc ↦ if_pos ?_).trans (List.map_id _)
  rcases List.mem_append.mp hc with hc | hc
  · cases negative with
    | false => cases hc
    | true =>
      rw [List.mem_singleton.mp hc]
      decide
  · rcases h.digit_or_point hc with hdigit | rfl
    · have := toNat_of_isDigit hdigit
      omega
    · decide

/-- Whether the text is a numeral with its sign and is read as the double. -/
def WrittenAs (x : Float) (text : String) : Prop :=
  ∃ (negative : Bool) (numeral : List Char),
    text.toList = (if negative then ['-'] else []) ++ numeral ∧ IsNumeral numeral ∧
      read? text = some x

theorem writtenAs (negative : Bool) {x : Float} {text : String} {numeral : List Char}
    {d : Decimal} (htext : text.toList = (if negative then ['-'] else []) ++ numeral)
    (hnumeral : IsNumeral numeral) (hread : readDecimal? numeral = some d)
    (hd : d.toFloat negative = x) : WrittenAs x text := by
  refine ⟨negative, numeral, htext, hnumeral, ?_⟩
  have hplain : text.toList.map plainChar = (if negative then ['-'] else []) ++ numeral := by
    rw [htext, map_plainChar negative hnumeral]
  rw [read?_of_isNumeral negative hplain hnumeral, hread, Option.map_some, hd]

/-- An integer is read as the double that it is. -/
theorem toFloat_whole {x : Float} {negative : Bool} {whole : Nat}
    (hx : shape x = .finite negative (whole * unitsInOne)) :
    Decimal.toFloat negative ⟨whole, 0⟩ = x := by
  have hlt : whole < tenPow 400 := by
    obtain ⟨bits, hbits, -, hunits⟩ := exists_withSign hx
    have hbound := unitsOfBits_lt hbits
    rw [← hunits] at hbound
    exact Nat.lt_of_lt_of_le (Nat.lt_of_mul_lt_mul_right hbound) (by decide +kernel)
  have hlong := (length_digits_le_iff (by decide)).mpr hlt
  have hshort := length_digits_pos whole
  unfold Decimal.toFloat Decimal.point
  dsimp only
  split
  · next hnone =>
    obtain rfl : whole = 0 := hnone.resolve_right (by omega)
    exact nearest_of_shape hx Nat.one_pos (Nat.mul_one _).symm
  · rw [if_neg (by omega), if_pos (Int.le_refl 0)]
    refine nearest_of_shape hx Nat.one_pos ?_
    have hten : tenPow (0 : Int).toNat = 1 := rfl
    rw [hten, Nat.mul_one, Nat.mul_one]

/-- The digits of an integer. -/
theorem writtenAs_integerText {x : Float} {negative : Bool} {whole : Nat}
    (hx : shape x = .finite negative (whole * unitsInOne))
    (hzero : whole = 0 → negative = false) :
    WrittenAs x (integerText (if negative then -whole else whole)) := by
  have hne := digits_ne_nil whole
  have hrow := isDigit_of_mem_digits (n := whole)
  have hsign : (if negative then -(whole : Int) else whole) < 0 ↔ negative = true := by
    cases negative with
    | false => simp
    | true =>
      have hpos : whole ≠ 0 := fun h ↦ Bool.noConfusion (hzero h)
      simp
      omega
  have hsize : (if negative then -(whole : Int) else whole).natAbs = whole := by
    cases negative <;> simp
  refine writtenAs negative ?_ ⟨_, [], (List.append_nil _).symm, hne, hrow, .inl rfl⟩
    (readDecimal?_of_whole hne hrow) (by rw [digitsValue_digits, toFloat_whole hx])
  rw [integerText, String.toList_ofList, hsize]
  simp only [hsign]

/-- Digits with a point among them. -/
theorem writtenAs_text {x : Float} {negative : Bool} {units : Nat}
    (hx : shape x = .finite negative units) (hfraction : units % unitsInOne ≠ 0)
    (hlow : unitsInOne ≤ 10000 * units) : WrittenAs x (text x) := by
  have hpos : 0 < units := by
    by_contra hnot
    rw [Nat.eq_zero_of_not_pos hnot] at hfraction
    exact hfraction (Nat.zero_mod _)
  have hhigh : units < twoPow 52 * unitsInOne := by
    obtain ⟨bits, -, -, rfl⟩ := exists_withSign hx
    exact unitsOfBits_lt_of_fractional hfraction
  obtain ⟨hnumeral, d, hread, hd⟩ := readDecimal?_positional (shortest units)
  refine writtenAs negative ?_ hnumeral hread
    ((hd negative).trans (toFloat_shortest hx hpos))
  rw [text, Layout.number, hx]
  dsimp only
  rw [String.toList_ofList, if_neg hpos.ne', Layout.decimal]
  exact congrArg _ (if_pos (point_shortest hlow hhigh))

theorem integer?_of_whole {x : Float} {negative : Bool} {whole : Nat}
    (hx : shape x = .finite negative (whole * unitsInOne)) :
    integer? x = some (if negative then -(whole : Int) else whole) := by
  rw [integer?, hx]
  dsimp only
  rw [if_pos (Nat.mul_mod_left ..), truncate?, hx]
  dsimp only
  rw [Nat.mul_div_cancel _ unitsInOne_pos]

theorem integer?_of_fraction {x : Float} {negative : Bool} {units : Nat}
    (hx : shape x = .finite negative units) (hfraction : units % unitsInOne ≠ 0) :
    integer? x = none := by
  rw [integer?, hx]
  exact if_neg hfraction

end Reckoner.Number

namespace Reckoner

open Number

/-- The literal of a double without an exponent is read as the double. -/
theorem Value.writtenAs_literal {x : Float} (h : isPlain x = true) :
    WrittenAs x (Value.number x).literal := by
  obtain ⟨negative, units, hx, hzero, hsize⟩ := exists_of_isPlain h
  by_cases hinteger : units % unitsInOne = 0
  · obtain ⟨whole, hwhole⟩ := Nat.dvd_of_mod_eq_zero hinteger
    rw [Nat.mul_comm] at hwhole
    rw [hwhole] at hx hzero
    rw [Value.literal, integer?_of_whole hx]
    exact writtenAs_integerText hx fun h ↦ hzero (by rw [h, Nat.zero_mul])
  · rw [Value.literal, integer?_of_fraction hx hinteger]
    exact writtenAs_text hx hinteger (hsize.resolve_left hinteger)

end Reckoner
