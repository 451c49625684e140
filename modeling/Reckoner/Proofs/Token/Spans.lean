import Reckoner.Proofs.Token.Kinds
import Reckoner.Proofs.Token.Layout

/-!
Where tokens stand. The tokens of a source have spans in it, one behind the other, and each token
has the text of its span and the position of its first character. Nothing else stands in the
source but layout and the punctuation of headers, and words and numbers do not go on behind their
spans. A scan shows that at every place of the source it comes to, from the end to the front: what
it reads first has its span in front of those of all other tokens.
-/

set_option autoImplicit false
set_option relaxedAutoImplicit false

namespace Reckoner

open Text

namespace Pos

/-- The position behind a text, counted: the lines by the carriage returns in the text, the columns
by the characters behind the last of these. -/
def behind (text : List Char) : Pos where
  line := 1 + text.count '\r'
  column := 1 + (text.reverse.takeWhile (· ≠ '\r')).length

theorem advance_behind (text : List Char) (c : Char) :
    (behind text).advance c = behind (text ++ [c]) := by
  by_cases hc : c = '\r'
  · subst hc
    simp [advance, behind]
    omega
  · simp [advance, behind, hc]
    omega

/-- Positions that are reckoned character by character are those that are counted. -/
theorem after_behind (read text : List Char) :
    (behind read).after text = behind (read ++ text) := by
  induction text generalizing read with
  | nil => simp
  | cons c text ih => simp [advance_behind, ih]

/-- Whether the first position is in front of the second one in a text. -/
def Before (first second : Pos) : Prop :=
  first.line < second.line ∨ first.line = second.line ∧ first.column < second.column

theorem Before.trans {first second third : Pos} (h : first.Before second)
    (h' : second.Before third) : first.Before third := by
  unfold Before at *
  omega

theorem Before.ne {first second : Pos} (h : first.Before second) : first ≠ second := by
  rintro rfl
  unfold Before at h
  omega

theorem before_advance (pos : Pos) (c : Char) : pos.Before (pos.advance c) := by
  unfold Before advance
  split
  · exact .inl (Int.lt_succ pos.line)
  · exact .inr ⟨rfl, Int.lt_succ pos.column⟩

theorem before_after {text : List Char} (h : text ≠ []) (pos : Pos) :
    pos.Before (pos.after text) := by
  induction text generalizing pos with
  | nil => exact absurd rfl h
  | cons c text ih =>
    cases text with
    | nil => exact before_advance pos c
    | cons d text => exact (before_advance pos c).trans (ih (List.cons_ne_nil d text) _)

/-- What stands earlier in a text has an earlier position. -/
theorem before_behind_take {text : List Char} {place later : Nat} (h : place < later)
    (hlater : later ≤ text.length) :
    (behind (text.take place)).Before (behind (text.take later)) := by
  have htake : text.take later = text.take place ++ (text.drop place).take (later - place) := by
    rw [← List.take_add, Nat.add_sub_cancel' h.le]
  rw [htake, ← after_behind]
  refine before_after (fun hnil ↦ ?_) _
  have hlength := congrArg List.length hnil
  rw [List.length_take, List.length_drop, List.length_nil] at hlength
  omega

end Pos

namespace Token

/-- The piece of source that the token is read from: its text, and the quotes of a string. -/
def source (token : Token) : List Char :=
  match token.kind with
  | .string => '"' :: (token.text.toList ++ ['"'])
  | _ => token.text.toList

/-- Whether the token is a word: a name or keyword. -/
def IsWord (token : Token) : Prop :=
  token.kind ≠ .string ∧ ∃ c ∈ token.text.toList.head?, isLetter c = true

/-- Whether the token comes to its end before the text: what follows a word is no part of a word,
and what follows a number no digit. -/
structure EndsBefore (token : Token) (text : List Char) : Prop where
  word : token.IsWord → ∀ c ∈ text.head?, isWordChar c = false
  number : token.kind = .number → ∀ c ∈ text.head?, isDecimal c = false

end Token

namespace Lexeme

variable {source behind : List Char}

theorem head_of_dropWhile {taken : Char → Bool} :
    ∀ c ∈ (source.dropWhile taken).head?, taken c = false := by
  intro c hc
  have hhead := List.head?_dropWhile_not taken source
  rw [hc] at hhead
  exact hhead

/-- A word goes on as far as it can. -/
theorem head_of_word (h : source = word source ++ behind) :
    ∀ c ∈ behind.head?, isWordChar c = false := by
  have hbehind : behind = source.dropWhile isWordChar :=
    List.append_cancel_left (h.symm.trans List.takeWhile_append_dropWhile.symm)
  rw [hbehind]
  exact head_of_dropWhile

/-- A numeral goes on as long as there are digits. -/
theorem head_of_numeral (h : source = numeral source ++ behind) :
    ∀ c ∈ behind.head?, isDecimal c = false := by
  have hsource : source.takeWhile isDecimal ++ source.dropWhile isDecimal = source :=
    List.takeWhile_append_dropWhile
  unfold numeral at h
  dsimp only at h
  split at h
  · next rest hrest =>
    rw [hrest] at hsource
    have hbehind : '.' :: rest = '.' :: rest.takeWhile isDecimal ++ behind := by
      refine List.append_cancel_left (hsource.trans (h.trans ?_))
      rw [List.append_assoc]
    have hbehind : behind = rest.dropWhile isDecimal :=
      List.append_cancel_left ((List.cons.inj hbehind).2.symm.trans
        List.takeWhile_append_dropWhile.symm)
    rw [hbehind]
    exact head_of_dropWhile
  · have hbehind : behind = source.dropWhile isDecimal :=
      List.append_cancel_left (h.symm.trans hsource.symm)
    rw [hbehind]
    exact head_of_dropWhile

variable {afterOperand : Bool} {c : Char} {rest : List Char} {lexeme : Lexeme}

theorem kind_of_symbol? (h : symbol? c rest = some lexeme) : lexeme.kind ≠ .number := by
  unfold symbol? at h
  split at h
  · next pair hpair =>
    cases h
    obtain ⟨d, -, hd⟩ := Option.bind_eq_some_iff.mp hpair
    obtain ⟨kind, hkind, rfl⟩ := Option.map_eq_some_iff.mp hd
    unfold TokenKind.ofPair? at hkind
    split at hkind <;> cases hkind <;> exact nofun
  · obtain ⟨kind, hkind, rfl⟩ := Option.map_eq_some_iff.mp h
    unfold TokenKind.ofOperator? at hkind
    split at hkind <;> cases hkind <;> exact nofun

/-- A number is a numeral, perhaps with a minus sign in front of it. -/
theorem span_of_number (h : read afterOperand c rest = .ok lexeme)
    (hkind : lexeme.kind = .number) :
    lexeme.span = numeral (c :: rest) ∨ lexeme.span = c :: numeral rest := by
  unfold read at h
  split at h
  · cases h
    exact absurd hkind (TokenKind.ofWord_ne _).1
  · split at h
    · cases h
      exact .inl rfl
    · split at h
      · split at h
        · next hstring =>
          cases h
          obtain ⟨body, behind, -, -, rfl⟩ := string?_eq_some hstring
          cases hkind
        · cases h
      · split at h
        · next hpunctuation =>
          cases h
          exact absurd hkind (TokenKind.ofPunctuation?_ne hpunctuation).1
        · split at h
          · cases h
            exact .inr rfl
          · split at h
            · next hsymbol =>
              cases h
              exact absurd hkind (kind_of_symbol? hsymbol)
            · cases h

/-- A lexeme that starts with a letter is a word. -/
theorem span_of_letter (h : read afterOperand c rest = .ok lexeme) (hletter : isLetter c = true) :
    lexeme.span = word (c :: rest) := by
  rw [read, if_pos hletter] at h
  cases h
  rfl

theorem source_token (h : read afterOperand c rest = .ok lexeme) (pos : Pos) :
    (lexeme.token pos).source = lexeme.span := by
  rcases isPlain_or_quoted h with ⟨⟨hstring, -⟩, hspan⟩ | ⟨body, -, rfl⟩
  · rw [hspan, Token.source]
    split
    · contradiction
    · exact String.toList_ofList
  · simp [Token.source, token, quoted]

/-- Lexemes end where they can go on no further. -/
theorem endsBefore (h : read afterOperand c rest = .ok lexeme) (pos : Pos)
    (hbehind : c :: rest = lexeme.span ++ behind) : (lexeme.token pos).EndsBefore behind := by
  constructor
  · rintro ⟨hstring, d, hd, hletter⟩
    have hspan : lexeme.span = lexeme.text := by
      rcases isPlain_or_quoted h with ⟨-, hspan⟩ | ⟨body, -, rfl⟩
      · exact hspan
      · exact absurd rfl hstring
    have hhead : d = c := by
      obtain ⟨more, -, hmore, -⟩ := read_span h
      have htext : (lexeme.token pos).text.toList = c :: more := by
        rw [← hmore, hspan]
        exact String.toList_ofList
      rw [htext] at hd
      exact (Option.some.inj hd).symm
    subst hhead
    rw [span_of_letter h hletter] at hbehind
    exact head_of_word hbehind
  · intro hkind
    rcases span_of_number h hkind with hspan | hspan
    · rw [hspan] at hbehind
      exact head_of_numeral hbehind
    · rw [hspan] at hbehind
      exact head_of_numeral (List.cons.inj hbehind).2

end Lexeme

/-- The text without its blanks. -/
def Text.signs (text : List Char) : List Char :=
  text.filter (!isBlank ·)

theorem Text.signs_append (first second : List Char) :
    signs (first ++ second) = signs first ++ signs second :=
  List.filter_append first second

/-- The punctuation between a token of a header and the next one, if these are two such. -/
def Header.punctuation : Option TokenKind → TokenKind → Option (List Char)
  | some .functionWord, .functionName => some []
  | some .functionName, .parameter => some ['(']
  | some .parameter, .parameter => some [',']
  | some .functionName, .doubleArrow => some ['(', ')']
  | some .parameter, .doubleArrow => some [')']
  | _, _ => none

/-- Whether the text may stand in front of a token of the given kind, behind another one or at the
start: inside a header the punctuation with blanks around it, and layout elsewhere. -/
def IsGap (previous : Option TokenKind) (kind : TokenKind) (gap : List Char) : Prop :=
  match Header.punctuation previous kind with
  | some punctuation => signs gap = punctuation
  | none => IsLayout false gap

/-- A token and where it stands in a source: the places of its first character and of the one
behind its last. -/
structure Span where
  token : Token
  start : Nat
  stop : Nat

/-- Whether the token is what stands there. -/
structure Span.Exact (span : Span) (source : List Char) : Prop where
  nonempty : span.start < span.stop
  inside : span.stop ≤ source.length
  text : source.extract span.start span.stop = span.token.source
  pos : span.token.pos = .behind (source.take span.start)
  ends : span.token.EndsBefore (source.drop span.stop)

/-- Whether the spans, each behind the one before it, are all that stands in the source from a place
on, except for what may stand in front of tokens and behind the last one. The kind is that of the
token that ends at the place, if one does. -/
structure Tiling (source : List Char) (place : Nat) (previous : Option TokenKind)
    (spans : List Span) : Prop where
  exact : ∀ span ∈ spans, span.Exact source
  increasing : spans.Pairwise (·.stop ≤ ·.start)
  first : ∀ span ∈ spans.head?,
    place ≤ span.start ∧ IsGap previous span.token.kind (source.extract place span.start)
  between : ∀ span next, [span, next] <:+: spans →
    IsGap (some span.token.kind) next.token.kind (source.extract span.stop next.start)
  last : IsLayout true (source.drop ((spans.getLast?.map (·.stop)).getD place))

theorem tiling_nil {source : List Char} {place : Nat} {previous : Option TokenKind}
    (h : IsLayout true (source.drop place)) : Tiling source place previous [] where
  exact := nofun
  increasing := .nil
  first := nofun
  between span next h := by simpa using h.length_le
  last := h

/-- One span more, in front of the others. -/
theorem Tiling.cons {source : List Char} {place : Nat} {previous : Option TokenKind} {span : Span}
    {spans : List Span} (hspan : span.Exact source) (hplace : place ≤ span.start)
    (hgap : IsGap previous span.token.kind (source.extract place span.start))
    (h : Tiling source span.stop (some span.token.kind) spans) :
    Tiling source place previous (span :: spans) where
  exact := List.forall_mem_cons.mpr ⟨hspan, h.exact⟩
  increasing := by
    refine List.pairwise_cons.mpr ⟨fun next hnext ↦ ?_, h.increasing⟩
    cases spans with
    | nil => cases hnext
    | cons second spans =>
      have hsecond := (h.first second rfl).1
      rcases List.mem_cons.mp hnext with rfl | hnext
      · exact hsecond
      · have hlater := (List.pairwise_cons.mp h.increasing).1 next hnext
        have hnonempty := (h.exact second List.mem_cons_self).nonempty
        omega
  first := by
    rintro found hfound
    cases hfound
    exact ⟨hplace, hgap⟩
  between found next hnext := by
    rcases List.infix_cons_iff.mp hnext with ⟨tail, htail⟩ | hinner
    · obtain ⟨rfl, rfl⟩ := List.cons.inj htail
      exact (h.first next rfl).2
    · exact h.between found next hinner
  last := by
    cases spans with
    | nil => exact h.last
    | cons second spans =>
      have hlast := h.last
      rw [List.getLast?_cons_cons]
      rw [List.getLast?_cons] at hlast ⊢
      exact hlast

/-- Spans one behind the other are no more than the characters from the first one on. -/
theorem length_spans_le {source : List Char} {place : Nat} {spans : List Span}
    (hplace : place ≤ source.length) (hexact : ∀ span ∈ spans, span.Exact source)
    (hincreasing : spans.Pairwise (·.stop ≤ ·.start))
    (hstart : ∀ span ∈ spans, place ≤ span.start) : place + spans.length ≤ source.length := by
  induction spans generalizing place with
  | nil => exact hplace
  | cons span spans ih =>
    obtain ⟨hspan, hexact⟩ := List.forall_mem_cons.mp hexact
    obtain ⟨hbehind, hincreasing⟩ := List.pairwise_cons.mp hincreasing
    have hmore := ih hspan.inside hexact hincreasing hbehind
    have hfirst := hstart span List.mem_cons_self
    have hnonempty := hspan.nonempty
    rw [List.length_cons]
    omega

end Reckoner
