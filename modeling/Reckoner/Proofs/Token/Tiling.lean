import Reckoner.Proofs.Token.Spans
import Reckoner.Proofs.Token.Spelling

/-!
The spans that a scan finds. A cursor at a place of a source has the rest of the source before it
and the position that is counted in what is behind it, and it keeps that when it passes over what
it has read. So each token is read where its span starts, and what lies between one token and the
next is what the cursor has passed over in between: layout, or the blanks and punctuation of a
header.
-/

set_option autoImplicit false
set_option relaxedAutoImplicit false

namespace Reckoner

open Text

namespace Cursor

variable {here start next : Cursor} {source gap more piece : List Char} {place : Nat}

/-- Whether the cursor is at a place of the source. -/
structure At (here : Cursor) (source : List Char) (place : Nat) : Prop where
  rest : here.rest = source.drop place
  pos : here.pos = .behind (source.take place)

theorem at_ofText (text : String) : (ofText text).At text.toList 0 :=
  ⟨rfl, rfl⟩

/-- A piece of text at the cursor is that piece of the source. -/
theorem At.extract (h : here.At source place) (hpiece : piece <+: here.rest) :
    source.extract place (place + piece.length) = piece := by
  rw [List.extract_eq_take_drop, Nat.add_sub_cancel_left, ← h.rest]
  exact (List.prefix_iff_eq_take.mp hpiece).symm

theorem At.skip (h : here.At source place) (hpiece : piece <+: here.rest) :
    (here.skip piece).At source (place + piece.length) := by
  constructor
  · rw [Cursor.skip, h.rest, List.drop_drop]
  · have htake : (source.drop place).take piece.length = piece := by
      rw [← h.rest]
      exact (List.prefix_iff_eq_take.mp hpiece).symm
    rw [Cursor.skip, h.pos, Pos.after_behind, List.take_add, htake]

theorem At.length_le (h : here.At source place) (hpiece : piece <+: here.rest)
    (hnonempty : piece ≠ []) : place + piece.length ≤ source.length := by
  have hlength := hpiece.length_le
  have hpos := List.length_pos_iff.mpr hnonempty
  rw [h.rest, List.length_drop] at hlength
  omega

theorem At.lt_length {c : Char}
    {rest : List Char} (h : here.At source place) (hrest : here.rest = c :: rest) :
    place < source.length := by
  have hlength := congrArg List.length (hrest.symm.trans h.rest)
  rw [List.length_drop, List.length_cons] at hlength
  omega

/-- A cursor is at one place of a source only. -/
theorem At.unique {other : Nat}
    (h : here.At source place) (hplace : place ≤ source.length) (h' : here.At source other)
    (hother : other ≤ source.length) : place = other := by
  have hlength := congrArg List.length (h.rest.symm.trans h'.rest)
  rw [List.length_drop, List.length_drop] at hlength
  omega

/-- Whether the second cursor is where the first one is once it has passed over the text. -/
structure Passes (here : Cursor) (gap : List Char) (next : Cursor) : Prop where
  front : gap <+: here.rest
  next : next = here.skip gap

theorem Passes.refl (here : Cursor) : here.Passes [] here :=
  ⟨List.nil_prefix, rfl⟩

theorem Passes.rest_eq (h : here.Passes gap next) : here.rest = gap ++ next.rest := by
  obtain ⟨⟨rest, hrest⟩, rfl⟩ := h
  rw [skip, ← hrest, List.drop_left]

theorem Passes.trans (h : here.Passes gap start) (hnext : start.Passes more next) :
    here.Passes (gap ++ more) next := by
  constructor
  · rw [h.rest_eq]
    exact (List.prefix_append_right_inj gap).mpr hnext.front
  · rw [hnext.next, h.next]
    simp [skip, Pos.after_append]

theorem passes_skipBlanks (here : Cursor) :
    here.Passes (here.rest.takeWhile isBlank) here.skipBlanks :=
  ⟨List.takeWhile_prefix _, rfl⟩

theorem passes_skipLayout (here : Cursor) :
    here.Passes (layout false here.rest) here.skipLayout :=
  ⟨layout_isPrefix false here.rest, rfl⟩

theorem passes_word (here : Cursor) :
    here.Passes (Lexeme.word here.rest) (here.skip (Lexeme.word here.rest)) :=
  ⟨List.takeWhile_prefix _, rfl⟩

theorem passes_char {c : Char} {rest : List Char} (h : here.rest = c :: rest) :
    here.Passes [c] (here.skip [c]) :=
  ⟨⟨rest, h.symm⟩, rfl⟩

theorem passes_lexeme {afterOperand : Bool} {c : Char} {rest : List Char} {lexeme : Lexeme}
    (hrest : here.rest = c :: rest) (h : Lexeme.read afterOperand c rest = .ok lexeme) :
    here.Passes lexeme.span (here.skip lexeme.span) := by
  obtain ⟨more, behind, hspan, rfl, -⟩ := Lexeme.read_span h
  exact ⟨⟨behind, by rw [hrest, hspan, List.cons_append]⟩, rfl⟩

theorem rest_skip {here : Cursor} {piece behind : List Char} (h : here.rest = piece ++ behind) :
    (here.skip piece).rest = behind := by
  rw [skip, h, List.drop_left]

theorem skip_append (here : Cursor) (first second : List Char) :
    here.skip (first ++ second) = (here.skip first).skip second := by
  simp [skip, Pos.after_append]

/-- The blanks in front of a text that starts with none are all that is passed over. -/
theorem skipBlanks_of_blanks {here : Cursor} {blanks behind : List Char}
    (h : here.rest = blanks ++ behind) (hblanks : ∀ c ∈ blanks, isBlank c = true)
    (hbehind : ∀ c ∈ behind.head?, isBlank c = false) : here.skipBlanks = here.skip blanks := by
  rw [skipBlanks, h, List.takeWhile_append_of_pos hblanks]
  cases behind with
  | nil => rw [List.takeWhile_nil, List.append_nil]
  | cons c behind =>
    rw [List.takeWhile_cons_of_neg (by simp [hbehind c rfl]), List.append_nil]

theorem skipBlanks_idem (here : Cursor) : here.skipBlanks.skipBlanks = here.skipBlanks := by
  have hhead : ∀ c ∈ here.skipBlanks.rest.head?, isBlank c = false := by
    rw [skipBlanks, rest_skip List.takeWhile_append_dropWhile.symm]
    exact Lexeme.head_of_dropWhile
  exact skipBlanks_of_blanks rfl (List.forall_mem_nil _) hhead

theorem signs_takeWhile_isBlank (text : List Char) : signs (text.takeWhile isBlank) = [] := by
  rw [signs, List.filter_eq_nil_iff]
  intro c hc
  simp [List.mem_takeWhile_imp hc]

end Cursor

/-- Whether the tokens are those of the text at the cursor, in any source it is in: they have spans
from there on. The kind is that of the token in front of the cursor. -/
def Tiles (previous : Option TokenKind) (here : Cursor) (found : List Token) : Prop :=
  ∀ source place, here.At source place → ∃ spans : List Span,
    found = spans.map (·.token) ++ [⟨.eof, "", .behind source⟩] ∧
      Tiling source place previous spans

variable {previous : Option TokenKind} {here start next : Cursor} {gap : List Char}
  {token : Token} {found : List Token}

/-- Behind the last token there is layout up to the end of the source. -/
theorem tiles_eof (h : here.skipLayout.rest = []) :
    Tiles previous here [⟨.eof, "", here.skipLayout.pos⟩] := by
  intro source place hat
  have hall := Cursor.rest_skipLayout_eq_nil.mp h
  have hend : here.skipLayout.pos = .behind source := by
    rw [Cursor.skipLayout, Cursor.skip, hall, hat.pos, hat.rest, Pos.after_behind,
      List.take_append_drop]
  exact ⟨[], by rw [hend]; rfl, tiling_nil (hat.rest ▸ Cursor.isLayout_rest h)⟩

/-- A token in front of others, with a gap in front of it. -/
theorem Tiles.cons {piece : List Char} (h : Tiles (some token.kind) next found)
    (hgap : here.Passes gap start) (hfits : IsGap previous token.kind gap)
    (hpos : token.pos = start.pos) (hsource : token.source = piece)
    (hnext : start.Passes piece next) (hnonempty : piece ≠ [])
    (hends : token.EndsBefore next.rest) : Tiles previous here (token :: found) := by
  intro source place hat
  have hstart : start.At source (place + gap.length) := hgap.next ▸ hat.skip hgap.front
  have hbehind : next.At source (place + gap.length + piece.length) :=
    hnext.next ▸ hstart.skip hnext.front
  obtain ⟨spans, rfl, htiling⟩ := h source _ hbehind
  refine ⟨⟨token, place + gap.length, place + gap.length + piece.length⟩ :: spans, rfl,
    htiling.cons ⟨?_, ?_, ?_, ?_, ?_⟩ (Nat.le_add_right _ _) ?_⟩
  · exact Nat.lt_add_of_pos_right (List.length_pos_iff.mpr hnonempty)
  · exact hstart.length_le hnext.front hnonempty
  · exact (hstart.extract hnext.front).trans hsource.symm
  · exact hpos.trans hstart.pos
  · exact hbehind.rest ▸ hends
  · rw [hat.extract hgap.front]
    exact hfits

/-- Anything may follow what is neither a word nor a number. -/
theorem Token.endsBefore_of_sign {c : Char} {rest : List Char}
    (htext : token.text.toList = c :: rest) (hc : isLetter c = false)
    (hkind : token.kind ≠ .number) (behind : List Char) : token.EndsBefore behind := by
  refine ⟨?_, fun hnumber ↦ absurd hnumber hkind⟩
  rintro ⟨-, d, hd, hletter⟩
  rw [htext] at hd
  cases hd
  rw [hc] at hletter
  cases hletter

/-! Headers: the blanks and the punctuation between two tokens are passed over in pieces, some of
them by the reader of the first token and some by the reader of the second. -/

namespace Header

theorem isGap_of_punctuation {kind : TokenKind}
    (h : punctuation previous kind = some (signs gap)) : IsGap previous kind gap := by
  rw [IsGap, h]

theorem word_of_name? {text : List Char} (h : name? here = some text) :
    text = Lexeme.word here.rest := by
  unfold name? at h
  split at h
  · cases h
  · next hrest =>
    split at h
    · cases h
      rw [hrest]
    · cases h

/-- A name, with the gap in front of it read so far. -/
theorem tiles_name {kind : TokenKind} {cause : LexError.Cause}
    (h : name kind cause here = .ok (token, next)) (hkind : kind ≠ .string ∧ kind ≠ .number)
    (htail : ∀ behind blanks, behind.Passes blanks next → signs blanks = [] →
      Tiles (some kind) behind found)
    {before : Cursor} (hgap : before.Passes gap here)
    (hfits : punctuation previous kind = some (signs gap)) :
    Tiles previous before (token :: found) := by
  unfold name at h
  dsimp only at h
  split at h
  · cases h
  · next text hname =>
    cases h
    obtain ⟨c, rest, hletters, -, -⟩ := isName_of_name? hname
    obtain rfl := word_of_name? hname
    have hword := here.skipBlanks.passes_word
    have hbehind := htail _ _ (Cursor.passes_skipBlanks _) (Cursor.signs_takeWhile_isBlank _)
    refine Tiles.cons hbehind (hgap.trans here.passes_skipBlanks) (isGap_of_punctuation ?_) rfl
      ?_ hword ?_
      ⟨fun _ ↦ Lexeme.head_of_word hword.rest_eq, fun hnumber ↦ absurd hnumber hkind.2⟩
    · rw [hfits, signs_append, Cursor.signs_takeWhile_isBlank, List.append_nil]
    · rw [Token.source]
      split
      · exact absurd ‹_› hkind.1
      · exact String.toList_ofList
    · rw [hletters]
      exact List.cons_ne_nil c rest

/-- Parameters up to the closing parenthesis, with the gap in front of them read so far. -/
theorem tiles_parameters {parameterTokens : List Token}
    (h : parameters here = .ok (parameterTokens, next))
    (htail : ∀ behind gap, behind.Passes gap next → signs gap = [')'] →
      Tiles (some .parameter) behind found)
    {before : Cursor} (hgap : before.Passes gap here)
    (hfits : punctuation previous .parameter = some (signs gap)) :
    Tiles previous before (parameterTokens ++ found) := by
  have hsign {blanks : List Char} {c : Char} (h : signs blanks = [])
      (hc : isBlank c = false) : signs (blanks ++ [c]) = [c] := by
    rw [signs_append, h]
    simp [signs, hc]
  fun_induction parameters here generalizing parameterTokens next previous gap before with
  | case1 => cases h
  | case2 here token behind hname rest hrest =>
    cases h
    refine tiles_name hname (by decide) (fun last blanks hlast hblanks ↦ ?_) hgap hfits
    exact htail last _ (hlast.trans (Cursor.passes_char hrest)) (hsign hblanks (by decide))
  | case3 here token behind hname rest hrest ih =>
    obtain ⟨⟨others, last⟩, hothers, hfound⟩ := exists_of_map_eq_ok h
    obtain ⟨rfl, rfl⟩ := Prod.mk.inj hfound
    refine tiles_name hname (by decide) (fun middle blanks hmiddle hblanks ↦ ?_) hgap hfits
    refine ih hothers htail (hmiddle.trans (Cursor.passes_char hrest)) ?_
    rw [hsign hblanks (by decide)]
    rfl
  | case4 => cases h

/-- The arrow, with the gap in front of it read so far. -/
theorem tiles_arrow (h : arrow here = .ok (token, next))
    (htail : Tiles (some .doubleArrow) next found) {before : Cursor}
    (hgap : before.Passes gap here)
    (hfits : punctuation previous .doubleArrow = some (signs gap)) :
    Tiles previous before (token :: found) := by
  have hgap' := hgap.trans here.passes_skipBlanks
  have hfits' : IsGap previous .doubleArrow (gap ++ here.rest.takeWhile isBlank) := by
    refine isGap_of_punctuation ?_
    rw [hfits, signs_append, Cursor.signs_takeWhile_isBlank, List.append_nil]
  by_cases hsign : ∃ more, here.skipBlanks.rest = '=' :: '>' :: more
  · obtain ⟨more, hmore⟩ := hsign
    rw [arrow_of_sign hmore] at h
    cases h
    have hsource : (Token.mk .doubleArrow "=>" here.skipBlanks.pos).source = ['=', '>'] := by
      simp [Token.source]
    exact Tiles.cons htail hgap' hfits' rfl hsource ⟨⟨more, hmore.symm⟩, rfl⟩ (by decide)
      (Token.endsBefore_of_sign hsource (by decide) (by simp) _)
  · rw [arrow_of_no_sign (not_exists.mp hsign)] at h
    split at h
    · next hword =>
      cases h
      have hpasses := here.skipBlanks.passes_word
      have hends := Lexeme.head_of_word hpasses.rest_eq
      rw [hword] at hpasses hends
      have hsource : (Token.mk .doubleArrow "flinq" here.skipBlanks.pos).source =
          "flinq".toList := rfl
      exact Tiles.cons (hword ▸ htail) hgap' hfits' rfl hsource hpasses (by decide)
        ⟨fun _ ↦ hends, by simp⟩
    · cases h

/-- A header, of which the name stands directly behind the word `function`. -/
theorem tiles_read {header : List Token} (h : read here = .ok (header, next))
    (htail : Tiles (some .doubleArrow) next found) :
    Tiles (some .functionWord) here (header ++ found) := by
  obtain ⟨nameToken, behindName, parameterTokens, behindList, arrowToken, hname, hlist, harrow,
    rfl⟩ := exists_of_read_eq_ok h
  rw [List.cons_append, List.append_assoc, List.singleton_append]
  refine tiles_name hname (by decide) (fun before blanks hblanks hnone ↦ ?_) (.refl here) rfl
  unfold parameterList at hlist
  split at hlist
  · next rest hrest =>
    -- the gap up to what stands behind the parenthesis and its blanks
    have hinner := (hblanks.trans (Cursor.passes_char hrest)).trans
      (behindName.skip ['(']).passes_skipBlanks
    have hparen : signs (blanks ++ ['('] ++
        (behindName.skip ['(']).rest.takeWhile isBlank) = ['('] := by
      rw [signs_append, signs_append, hnone, Cursor.signs_takeWhile_isBlank]
      rfl
    dsimp only at hlist
    split at hlist
    · next more hmore =>
      cases hlist
      refine tiles_arrow harrow htail (hinner.trans (Cursor.passes_char hmore)) ?_
      rw [signs_append, hparen]
      rfl
    · refine tiles_parameters hlist (fun last gap hgap hsigns ↦ ?_) hinner (by rw [hparen]; rfl)
      exact tiles_arrow harrow htail hgap (by rw [hsigns]; rfl)
  · cases hlist

end Header

namespace Scan

/-- Whether the last token, if there is one, is none of the names of a header. -/
def Outside (previous : Option TokenKind) : Prop :=
  previous ≠ some .functionName ∧ previous ≠ some .parameter

instance : DecidablePred Outside :=
  fun previous ↦ inferInstanceAs (Decidable
    (previous ≠ some .functionName ∧ previous ≠ some .parameter))

theorem Outside.punctuation_eq_none (h : Outside previous) {kind : TokenKind}
    (hkind : Outside (some kind)) : Header.punctuation previous kind = none := by
  obtain ⟨hname, hparameter⟩ := h
  have hkind := hkind.1
  unfold Header.punctuation
  split <;> simp_all

theorem outside_of_read {afterOperand : Bool} {c : Char} {rest : List Char} {lexeme : Lexeme}
    (h : Lexeme.read afterOperand c rest = .ok lexeme) : Outside (some lexeme.kind) := by
  rcases Lexeme.isPlain_or_quoted h with ⟨⟨-, hname, hparameter, -⟩, -⟩ | ⟨body, -, rfl⟩
  · simp [Outside, hname, hparameter]
  · simp [Outside, Lexeme.quoted]

theorem tiles_printParen (h : printParen here = .ok (token, next))
    (htail : Tiles (some .leftParen) next found) :
    Tiles (some .printWord) here (token :: found) := by
  unfold printParen at h
  dsimp only at h
  split at h
  · next rest hrest =>
    cases h
    have hgap : IsGap (some .printWord) .leftParen (here.rest.takeWhile isBlank) :=
      isLayout_of_isBlank (fun c hc ↦ List.mem_takeWhile_imp hc) false
    have hsource : (Token.mk .leftParen "(" here.skipBlanks.pos).source = ['('] := by
      simp [Token.source]
    exact Tiles.cons htail here.passes_skipBlanks hgap rfl hsource (Cursor.passes_char hrest)
      (by decide) (Token.endsBefore_of_sign hsource (by decide) (by simp) _)
  · cases h

variable {limit : Nat} {opens : List OpenPrint} {afterOperand : Bool} {c : Char}
  {rest : List Char}

/-- A lexeme with layout in front of it. -/
theorem tiles_lexeme {lexeme : Lexeme} (hrest : here.skipLayout.rest = c :: rest)
    (hread : Lexeme.read afterOperand c rest = .ok lexeme) (hprevious : Outside previous)
    (htail : Tiles (some lexeme.kind) (here.skipLayout.skip lexeme.span) found) :
    Tiles previous here (lexeme.token here.skipLayout.pos :: found) := by
  have hgap : IsGap previous lexeme.kind (Cursor.layout false here.rest) := by
    rw [IsGap, hprevious.punctuation_eq_none (outside_of_read hread)]
    exact Cursor.isLayout_skipLayout (by rw [hrest]; exact List.cons_ne_nil _ _)
  have hpasses := Cursor.passes_lexeme hrest hread
  exact Tiles.cons htail here.passes_skipLayout hgap rfl (Lexeme.source_token hread _) hpasses
    (Lexeme.span_ne_nil hread) (Lexeme.endsBefore hread _ (hrest ▸ hpasses.rest_eq))

/-- What one step of a scan finds, in front of what the scan finds behind it. -/
theorem tiles_step {step : Step} (hrest : here.skipLayout.rest = c :: rest)
    (h : Scan.step limit opens afterOperand here.skipLayout c rest = .ok step)
    (hprevious : Outside previous)
    (htail : ∀ last, Outside last → Tiles last step.next found) :
    Tiles previous here (step.tokens ++ found) := by
  obtain ⟨lexeme, hread, hfound⟩ := step_eq_ok_iff.mp h
  rcases hfound with ⟨-, -, rfl⟩ | ⟨hfunction, header, next, hheader, rfl⟩ |
    ⟨hprint, -, paren, next, hparen, rfl⟩
  · exact tiles_lexeme hrest hread hprevious (htail _ (outside_of_read hread))
  · have hbehind := Header.tiles_read hheader (htail (some .doubleArrow) (by decide))
    exact tiles_lexeme hrest hread hprevious (hfunction ▸ hbehind)
  · have hbehind := tiles_printParen hparen (htail (some .leftParen) (by decide))
    exact tiles_lexeme hrest hread hprevious (hprint ▸ hbehind)

/-- What a scan finds is what stands there. -/
theorem tiles_tokens (h : tokens limit opens afterOperand here = .ok found)
    (hprevious : Outside previous) : Tiles previous here found := by
  fun_induction tokens limit opens afterOperand here generalizing found previous with
  | case1 afterOperand here start =>
    rename_i hrest
    cases h
    exact tiles_eof hrest
  | case2 => cases h
  | case3 => cases h
  | case4 opens afterOperand here start c rest hrest step hstep =>
    rename_i ih
    obtain ⟨others, hothers, rfl⟩ := exists_of_map_eq_ok h
    exact tiles_step hrest hstep hprevious fun last hlast ↦ ih hothers hlast

end Scan

/-- Each token of a source has a later position than those in front of it. -/
theorem pairwise_before {limit : Nat} {source : String} {found : List Token}
    (h : tokenize limit source = .ok found) :
    found.Pairwise fun first second ↦ first.pos.Before second.pos := by
  have htiles : Tiles none (Cursor.ofText source) found := Scan.tiles_tokens h (by decide)
  obtain ⟨spans, rfl, htiling⟩ := htiles source.toList 0 (Cursor.at_ofText source)
  rw [List.pairwise_append, List.pairwise_map]
  refine ⟨?_, List.pairwise_singleton _ _, List.forall_mem_map.mpr fun span hspan ↦ ?_⟩
  · refine htiling.increasing.imp_of_mem fun {first second} hfirst hsecond hspans ↦ ?_
    have hfirst := htiling.exact first hfirst
    have hsecond := htiling.exact second hsecond
    rw [hfirst.pos, hsecond.pos]
    exact Pos.before_behind_take (Nat.lt_of_lt_of_le hfirst.nonempty hspans)
      (hsecond.nonempty.le.trans hsecond.inside)
  · have hspan := htiling.exact span hspan
    have hend := Pos.before_behind_take (Nat.lt_of_lt_of_le hspan.nonempty hspan.inside) le_rfl
    rw [List.take_length, ← hspan.pos] at hend
    exact List.forall_mem_singleton.mpr hend

/-- The tokens of a source stand in it one behind the other, each where and as it says. -/
theorem tokenize_tiling {limit : Nat} {source : String} {found : List Token}
    (h : tokenize limit source = .ok found) : ∃ spans : List Span,
    found = spans.map (·.token) ++ [⟨.eof, "", .behind source.toList⟩] ∧
      Tiling source.toList 0 none spans := by
  have htiles : Tiles none (Cursor.ofText source) found :=
    Scan.tiles_tokens h (by decide)
  exact htiles source.toList 0 (Cursor.at_ofText source)

/-- A comment, and a string that goes on behind the end of its line. -/
theorem tokenize_tiling_lines : ∃ found, tokenize 1 "f // g\rif \"a\rb\" 12" = .ok found ∧
    ∃ spans : List Span,
      found = spans.map (·.token) ++ [⟨.eof, "", .behind "f // g\rif \"a\rb\" 12".toList⟩] ∧
        Tiling "f // g\rif \"a\rb\" 12".toList 0 none spans := by
  have htokens : tokenize 1 "f // g\rif \"a\rb\" 12" = .ok [⟨.identifier, "f", ⟨1, 1⟩⟩,
      ⟨.ifWord, "if", ⟨2, 1⟩⟩, ⟨.string, "a\rb", ⟨2, 4⟩⟩, ⟨.number, "12", ⟨3, 4⟩⟩,
      ⟨.eof, "", ⟨3, 6⟩⟩] := by
    decide +kernel
  exact ⟨_, htokens, tokenize_tiling htokens⟩

end Reckoner
