import Mathlib.Data.List.Chain
import Reckoner.Proofs.Token.Exchange

/-!
Comments are layout. A comment with a space in front of it and the end of its line behind it may be
put in between two tokens, in front of the first one and behind the last one, and the same tokens
are found. The scan comes to the place as it did before, since no step sees more than the first
character of what is behind it; the comment is passed over with the layout it stands in; and from
there on the scan reads the same text, at other positions. Two gaps are read in another way than
all others, those inside a header and the one between `print` and its parenthesis: there nothing
but blanks is passed over.
-/

set_option autoImplicit false
set_option relaxedAutoImplicit false

namespace Reckoner

open Text

/-- A comment with a space in front of it and the end of its line behind it. -/
def remark (comment : List Char) : List Char :=
  ' ' :: '/' :: '/' :: (comment ++ ['\r'])

/-- The source with a comment put in at a place. -/
def commented (source : String) (place : Nat) (comment : String) : String :=
  String.ofList (source.toList.take place ++ remark comment.toList ++ source.toList.drop place)

variable {comment gap more tail : List Char} {atEnd : Bool}

/-! ### Layout -/

namespace Cursor

/-- A comment that is put in is passed over in layout and in comments. -/
theorem layout_remark (inComment : Bool) (h : '\r' ∉ comment) (more : List Char) :
    layout inComment (remark comment ++ more) = remark comment ++ layout false more := by
  have hbody : '\r' ∉ ' ' :: '/' :: '/' :: comment := by simp [h]
  cases inComment with
  | true => simpa [remark] using layout_line hbody more
  | false =>
    have hblank : layout false (' ' :: '/' :: '/' :: (comment ++ '\r' :: more)) =
        ' ' :: '/' :: '/' :: layout true (comment ++ '\r' :: more) := by
      rw [layout_blank isBlank_space, layout]
    simpa [remark, layout_line h] using hblank

theorem skipLayout_idem (here : Cursor) : here.skipLayout.skipLayout = here.skipLayout := by
  have hnone : layout false here.skipLayout.rest = [] := layout_drop_layout false here.rest
  rw [skipLayout, hnone]
  rfl

/-- The layout with a comment put into it ends where it ended. -/
theorem rest_skipLayout_remark {pos : Pos} (hgap : IsLayout true gap) (hmore : IsLayout atEnd more)
    (hend : atEnd = true → tail = []) (htail : layout false tail = []) (hcomment : '\r' ∉ comment) :
    (Cursor.mk (gap ++ remark comment ++ (more ++ tail)) pos).skipLayout.rest = tail := by
  obtain ⟨inComment, hflag⟩ := layout_append_of_eq (layout_of_isLayout hgap)
  have hmore' : layout false (more ++ tail) = more := by
    cases atEnd with
    | false => rw [layout_append_of_isLayout hmore, htail, List.append_nil]
    | true => rw [hend rfl, List.append_nil, layout_of_isLayout hmore]
  have hall : layout false (gap ++ remark comment ++ (more ++ tail)) =
      gap ++ remark comment ++ more := by
    rw [List.append_assoc, hflag, layout_remark inComment hcomment, hmore', List.append_assoc]
  rw [skipLayout, hall]
  exact rest_skip (List.append_assoc _ _ _).symm

/-- The cursor in a text with a comment put in behind so many characters. -/
def commented (here : Cursor) (offset : Nat) (comment : List Char) : Cursor :=
  ⟨here.rest.take offset ++ remark comment ++ here.rest.drop offset, here.pos⟩

/-- What stands in front of the comment cannot tell it from what has stood there. -/
theorem replaces_commented (here : Cursor) (offset : Nat) (comment : List Char) :
    Replaces here.rest (here.commented offset comment).rest := by
  have hremark (more : List Char) : Apart (remark comment ++ more) := apart_cons.mpr (by decide)
  rw [commented, List.append_assoc]
  cases here.rest with
  | nil => exact .inr (by simpa using hremark [])
  | cons c rest =>
    cases offset with
    | zero => exact .inr (hremark _)
    | succ offset => exact .inl rfl

theorem Passes.commented {here next : Cursor} {piece : List Char} (h : here.Passes piece next)
    (offset : Nat) (comment : List Char) : here.commented (piece.length + offset) comment =
      ⟨piece ++ (next.commented offset comment).rest, here.pos⟩ := by
  simp [Cursor.commented, h.rest_eq, List.take_append, List.drop_append,
    List.take_of_length_le, List.drop_of_length_le]

/-- A cursor, and another one in the same text. -/
theorem parallel_rest : Parallel [] fun here here' ↦ here'.rest = here.rest where
  closed := closed_nil
  rest h := by rw [h, List.append_nil]
  skip h _ := by rw [skip, skip, h]

end Cursor

theorem Token.spelling_of_corresponds {C : Cursor → Cursor → Prop} {found found' : List Token}
    (h : List.Forall₂ (Token.Corresponds C) found found') :
    found'.map Token.spelling = found.map Token.spelling := by
  induction h with
  | nil => rfl
  | cons htoken _ ih => rw [List.map_cons, List.map_cons, ih, spelling, spelling, htoken.kind,
      htoken.text]

/-! ### The scan up to the comment -/

namespace Scan

variable {limit : Nat} {opens : List OpenPrint} {afterOperand : Bool} {here here' : Cursor}
  {c : Char} {rest : List Char} {found : Step}

theorem tokens_skipLayout (here : Cursor) : tokens limit opens afterOperand here.skipLayout =
    tokens limit opens afterOperand here := by
  rw [tokens_eq, Cursor.skipLayout_idem, ← tokens_eq]

/-- From one place in a text on the same tokens are found, whatever layout is in front of it. -/
theorem exists_tokens_of_rest {found : List Token}
    (h : tokens limit opens afterOperand here = .ok found)
    (hrest : here'.skipLayout.rest = here.skipLayout.rest) : ∃ again,
      tokens limit opens afterOperand here' = .ok again ∧
        again.map Token.spelling = found.map Token.spelling := by
  have halike : Alike _ (tokens limit opens afterOperand here.skipLayout)
      (tokens limit opens afterOperand here'.skipLayout) :=
    tokens_alike Cursor.parallel_rest hrest rfl
  rw [tokens_skipLayout, tokens_skipLayout, h] at halike
  obtain ⟨again, hagain, hfound⟩ := halike.of_ok
  exact ⟨again, hagain, Token.spelling_of_corresponds hfound⟩

/-- A comment behind a step does not change the step. -/
theorem tokens_commented_step (hrest : here.skipLayout.rest = c :: rest)
    (hstep : step limit opens afterOperand here.skipLayout c rest = .ok found) : ∃ piece,
      piece ≠ [] ∧ here.Passes piece found.next ∧ ∀ offset comment,
        tokens limit opens afterOperand (here.commented (piece.length + offset) comment) =
          (tokens limit found.opens found.afterOperand (found.next.commented offset comment)).map
            (found.tokens ++ ·) := by
  obtain ⟨more, hpasses, hagain⟩ := step_replaces hrest hstep
  have hwhole := here.passes_skipLayout.trans hpasses
  refine ⟨_, by simp, hwhole, fun offset comment ↦ ?_⟩
  have hother := found.next.replaces_commented offset comment
  have hnone : Cursor.layout false (c :: (more ++ found.next.rest)) = [] := by
    have hdrop : Cursor.layout false here.skipLayout.rest = [] :=
      Cursor.layout_drop_layout false here.rest
    rwa [hpasses.rest_eq] at hdrop
  -- the layout in front of the step is the same, and so is what the step reads
  have hgap : IsLayout false (Cursor.layout false here.rest) :=
    Cursor.isLayout_skipLayout (hrest ▸ List.cons_ne_nil c rest)
  have hstart : (here.commented ((Cursor.layout false here.rest ++ c :: more).length + offset)
      comment).skipLayout = ⟨c :: (more ++ (found.next.commented offset comment).rest),
        here.skipLayout.pos⟩ := by
    rw [hwhole.commented, Cursor.skipLayout, List.append_assoc,
      List.cons_append, Cursor.layout_append_of_isLayout hgap, Cursor.layout_replaces hother hnone]
    simp [Cursor.skip, Cursor.skipLayout]
  rw [tokens_cons (congrArg Cursor.rest hstart), hstart, hagain _ hother]
  rfl

end Scan

/-! ### The tokens of a step -/

/-- Whether the first token is read together with the second one, as a part of a header or as a
print with its parenthesis. -/
def Token.Binds (first second : Token) : Prop :=
  Header.punctuation (some first.kind) second.kind ≠ none ∨ first.kind = .printWord

/-- Whether the token is read from the cursor on, behind something else perhaps, up to the second
cursor. -/
def Token.ReadUpTo (token : Token) (here next : Cursor) : Prop :=
  ∃ gap start, here.Passes gap start ∧ token.pos = start.pos ∧ start.Passes token.source next

theorem Token.ReadUpTo.of_passes {token : Token} {here start next : Cursor} {gap : List Char}
    (h : token.ReadUpTo start next) (hgap : here.Passes gap start) : token.ReadUpTo here next := by
  obtain ⟨more, middle, hmore, hpos, hsource⟩ := h
  exact ⟨_, middle, hgap.trans hmore, hpos, hsource⟩

namespace Header

variable {here next : Cursor} {tokens : List Token} {token : Token}

theorem readUpTo_arrow (h : arrow here = .ok (token, next)) : token.ReadUpTo here next := by
  refine ⟨_, here.skipBlanks, here.passes_skipBlanks, ?_⟩
  by_cases hsign : ∃ more, here.skipBlanks.rest = '=' :: '>' :: more
  · obtain ⟨more, hmore⟩ := hsign
    rw [arrow_of_sign hmore] at h
    cases h
    exact ⟨rfl, ⟨more, by simp [hmore, Token.source]⟩, by simp [Token.source]⟩
  · rw [arrow_of_no_sign (not_exists.mp hsign)] at h
    split at h
    · next hword =>
      cases h
      have hpasses := here.skipBlanks.passes_word
      rw [hword] at hpasses ⊢
      exact ⟨rfl, hpasses⟩
    · cases h

theorem isChain_binds {previous arrow : Token} {parameters : List Token}
    (hprevious : previous.kind = .functionName ∨ previous.kind = .parameter)
    (hparameters : ∀ token ∈ parameters, token.kind = .parameter)
    (harrow : arrow.kind = .doubleArrow) :
    (previous :: (parameters ++ [arrow])).IsChain Token.Binds := by
  induction parameters generalizing previous with
  | nil =>
    refine .cons_cons (.inl ?_) (.singleton arrow)
    rcases hprevious with h | h <;> simp [punctuation, h, harrow]
  | cons token parameters ih =>
    obtain ⟨htoken, hparameters⟩ := List.forall_mem_cons.mp hparameters
    refine .cons_cons (.inl ?_) (ih (.inr htoken) hparameters)
    rcases hprevious with h | h <;> simp [punctuation, h, htoken]

end Header

namespace Scan

variable {limit : Nat} {opens : List OpenPrint} {afterOperand : Bool} {here next : Cursor}
  {c : Char} {rest : List Char} {found : Step} {paren : Token}

theorem readUpTo_printParen (h : printParen here = .ok (paren, next)) :
    paren.ReadUpTo here next := by
  obtain ⟨blanks, behind, hrest, -, rfl, rfl⟩ := printParen_eq_ok_iff.mp h
  refine ⟨blanks, here.skip blanks, ⟨⟨_, hrest.symm⟩, rfl⟩, rfl, ?_⟩
  have hsource : (Token.mk .leftParen "(" (here.skip blanks).pos).source = ['('] := by
    simp [Token.source]
  rw [hsource]
  exact Cursor.passes_char (Cursor.rest_skip hrest)

/-- What a step reads: its tokens belong together, the first one starts where the step does, and the
last one ends where the step does. -/
structure Step.Sound (found : Step) (here : Cursor) : Prop where
  first : ∃ token ∈ found.tokens.head?, token.pos = here.pos
  last : ∃ token ∈ found.tokens.getLast?, token.ReadUpTo here found.next
  binds : found.tokens.IsChain Token.Binds

theorem sound_step (hrest : here.rest = c :: rest)
    (h : step limit opens afterOperand here c rest = .ok found) : found.Sound here := by
  obtain ⟨lexeme, hread, hfound⟩ := step_eq_ok_iff.mp h
  have hpasses := Cursor.passes_lexeme hrest hread
  rcases hfound with ⟨-, -, rfl⟩ | ⟨hkind, header, next, hheader, rfl⟩ |
    ⟨hkind, -, paren, next, hparen, rfl⟩
  · refine ⟨⟨_, rfl, rfl⟩, ⟨_, rfl, [], here, .refl here, rfl, ?_⟩, .singleton _⟩
    change here.Passes (lexeme.token here.pos).source _
    rw [Lexeme.source_token hread]
    exact hpasses
  · obtain ⟨name, second, parameters, third, arrow, hname, hlist, harrow, rfl⟩ :=
      Header.exists_of_read_eq_ok hheader
    obtain ⟨nameText, -, hname'⟩ := Header.exists_isNamed hname
    obtain ⟨listText, -, hlist'⟩ := Header.exists_isList hlist
    refine ⟨⟨_, rfl, rfl⟩, ⟨arrow, by simp [List.getLast?_cons, List.getLast?_append], ?_⟩, ?_⟩
    · exact (Header.readUpTo_arrow harrow).of_passes ((hpasses.trans hname').trans hlist')
    · refine .cons_cons (.inl ?_) (Header.isChain_binds (.inl (Header.kind_of_name hname))
        (Header.kind_of_parameterList hlist) (Header.kind_of_arrow harrow))
      rw [Header.kind_of_name hname]
      simp [Lexeme.token, hkind, Header.punctuation]
  · refine ⟨⟨_, rfl, rfl⟩, ⟨paren, rfl, (readUpTo_printParen hparen).of_passes hpasses⟩, ?_⟩
    exact .cons_cons (.inr hkind) (.singleton paren)

end Scan

/-! ### The place of the comment -/

/-- Where the last of the spans ends, or else the place they are behind. -/
def endOf (place : Nat) (spans : List Span) : Nat :=
  (spans.getLast?.map (·.stop)).getD place

/-- Where the first of the spans starts, or else where the source ends. -/
def startOf (source : List Char) (spans : List Span) : Nat :=
  (spans.head?.map (·.start)).getD source.length

/-- Whether a comment may be put in at a place: it is in the gap between the spans in front of it
and those behind it, tokens that are read together are not on both sides of it, and what is in the
gap is layout on either side, so that no comment of the source is taken apart. -/
structure IsFree (source : List Char) (place : Nat) (before behind : List Span) (cut : Nat) :
    Prop where
  front : endOf place before ≤ cut
  back : cut ≤ startOf source behind
  apart : ∀ first ∈ before.getLast?, ∀ second ∈ behind.head?, ¬ first.token.Binds second.token
  gap : IsLayout true (source.extract (endOf place before) cut)
  rest : IsLayout behind.isEmpty (source.extract cut (startOf source behind))

namespace Span.Exact

variable {span : Span} {source : List Char} {here next : Cursor} {place : Nat}

theorem stop_eq (h : span.Exact source) : span.stop = span.start + span.token.source.length := by
  have hlength := congrArg List.length h.text
  have hnonempty := h.nonempty
  have hinside := h.inside
  rw [List.extract_eq_take_drop, List.length_take, List.length_drop] at hlength
  omega

/-- A token is at one place only. -/
theorem start_eq (h : span.Exact source) (hat : here.At source place)
    (hplace : place ≤ source.length) (hpos : span.token.pos = here.pos) : span.start = place := by
  have hlength : (source.take span.start).length = span.start :=
    List.length_take_of_le (h.nonempty.le.trans h.inside)
  rw [← hlength]
  exact Pos.length_eq_of_behind (List.take_prefix _ _) hplace
    (h.pos.symm.trans (hpos.trans hat.pos))

/-- Where a token has been read, its span ends. -/
theorem at_stop (h : span.Exact source) (hat : here.At source place)
    (hread : span.token.ReadUpTo here next) : next.At source span.stop := by
  obtain ⟨gap, start, hgap, hpos, hsource⟩ := hread
  have hstart : start.At source (place + gap.length) := hgap.next ▸ hat.skip hgap.front
  have hnonempty : span.token.source ≠ [] := by
    intro hnil
    have hstop := h.stop_eq
    rw [hnil, List.length_nil, Nat.add_zero] at hstop
    exact absurd hstop h.nonempty.ne'
  have hinside := hstart.length_le hsource.front hnonempty
  rw [h.stop_eq, h.start_eq hstart (by omega) hpos, hsource.next]
  exact hstart.skip hsource.front

end Span.Exact

theorem endOf_append (place : Nat) (first second : List Span) :
    endOf place (first ++ second) = endOf (endOf place first) second := by
  rw [endOf, List.getLast?_append, endOf, endOf]
  cases second.getLast? <;> rfl

theorem endOf_le_append {source : List Char} {first second : List Span}
    (hexact : ∀ span ∈ second, span.Exact source)
    (hincreasing : (first ++ second).Pairwise (·.stop ≤ ·.start)) (hfirst : first ≠ [])
    (place : Nat) : endOf place first ≤ endOf place (first ++ second) := by
  obtain ⟨span, hspan⟩ := Option.isSome_iff_exists.mp (List.getLast?_isSome.mpr hfirst)
  rw [endOf, endOf, List.getLast?_append, hspan]
  cases hlast : second.getLast? with
  | none => exact Nat.le_refl _
  | some last =>
    have hmem := List.mem_of_mem_getLast? hlast
    have hstart : span.stop ≤ last.start :=
      (List.pairwise_append.mp hincreasing).2.2 span (List.mem_of_mem_getLast? hspan) last hmem
    exact hstart.trans (hexact last hmem).nonempty.le

/-- A place that is free is so for the spans behind some of those in front of it. -/
theorem IsFree.of_append {source : List Char} {place cut : Nat} {first second behind : List Span}
    (h : IsFree source place (first ++ second) behind cut) :
    IsFree source (endOf place first) second behind cut where
  front := endOf_append place first second ▸ h.front
  back := h.back
  apart span hspan := h.apart span (by rw [List.getLast?_append, Option.mem_def.mp hspan]; rfl)
  gap := endOf_append place first second ▸ h.gap
  rest := h.rest

theorem drop_eq_extract_append {source : List Char} {place later : Nat} (h : place ≤ later) :
    source.drop place = source.extract place later ++ source.drop later := by
  rw [List.extract_eq_take_drop, ← Nat.add_sub_cancel' h, ← List.drop_drop, Nat.add_sub_cancel_left,
    List.take_append_drop]

namespace Scan

variable {limit : Nat} {opens : List OpenPrint} {afterOperand : Bool} {here : Cursor}
  {found : List Token} {source : List Char} {place cut : Nat} {behind : List Span}

/-- A comment in the layout in front of all tokens. -/
theorem exists_tokens_commented_first (h : tokens limit opens afterOperand here = .ok found)
    (hat : here.At source place) (hfree : IsFree source place [] behind cut)
    (hstart : here.skipLayout.rest = source.drop (startOf source behind))
    (hcomment : '\r' ∉ comment) : ∃ again,
      tokens limit opens afterOperand (here.commented (cut - place) comment) = .ok again ∧
        again.map Token.spelling = found.map Token.spelling := by
  refine exists_tokens_of_rest h ?_
  have hplace : place ≤ cut := hfree.front
  have hnone : Cursor.layout false (source.drop (startOf source behind)) = [] :=
    hstart ▸ Cursor.layout_drop_layout false here.rest
  have hend : behind.isEmpty = true → source.drop (startOf source behind) = [] := by
    intro hnil
    rw [List.isEmpty_iff.mp hnil]
    exact List.drop_length
  have htake : here.rest.take (cut - place) = source.extract place cut := by
    rw [hat.rest, List.extract_eq_take_drop]
  have hdrop : here.rest.drop (cut - place) = source.extract cut (startOf source behind) ++
      source.drop (startOf source behind) := by
    rw [hat.rest, List.drop_drop, Nat.add_sub_cancel' hplace, drop_eq_extract_append hfree.back]
  rw [Cursor.commented, htake, hdrop, hstart]
  exact Cursor.rest_skipLayout_remark hfree.gap hfree.rest hend hnone hcomment

/-- The tokens of a step have the first spans. -/
theorem exists_own_spans {step : Step} {others : List Token} {spans : List Span} {mark : Token}
    (hothers : tokens limit opens afterOperand here = .ok others)
    (hfound : step.tokens ++ others = spans.map (·.token) ++ [mark]) : ∃ own later,
      spans = own ++ later ∧ own.map (·.token) = step.tokens ∧
        others = later.map (·.token) ++ [mark] := by
  obtain ⟨body, pos, rfl, -⟩ := exists_tokens_eq hothers
  rw [← List.append_assoc] at hfound
  obtain ⟨hspans, ⟨⟩⟩ := List.append_inj' hfound rfl
  obtain ⟨own, later, hsplit, hown, rfl⟩ := List.map_eq_append_iff.mp hspans.symm
  exact ⟨own, later, hsplit, hown, rfl⟩

/-- The spans of what a step reads start where the step does, and end where the step does. -/
theorem Step.Sound.spans {step : Step} {own : List Span} (h : step.Sound here)
    (hown : own.map (·.token) = step.tokens) (hexact : ∀ span ∈ own, span.Exact source)
    (hat : here.At source place) (hplace : place ≤ source.length) :
    own ≠ [] ∧ (∀ later, startOf source (own ++ later) = place) ∧
      ∀ other, step.next.At source (endOf other own) ∧ endOf other own ≤ source.length := by
  obtain ⟨firstToken, hfirst, hpos⟩ := h.first
  obtain ⟨lastToken, hlast, hread⟩ := h.last
  rw [← hown, List.head?_map] at hfirst
  rw [← hown, List.getLast?_map] at hlast
  obtain ⟨first, hfirst', rfl⟩ := Option.map_eq_some_iff.mp hfirst
  obtain ⟨last, hlast', rfl⟩ := Option.map_eq_some_iff.mp hlast
  have hfirstExact := hexact first (List.mem_of_mem_head? hfirst')
  have hlastExact := hexact last (List.mem_of_mem_getLast? hlast')
  refine ⟨List.ne_nil_of_mem (List.mem_of_mem_head? hfirst'), fun later ↦ ?_, fun other ↦ ?_⟩
  · rw [startOf, List.head?_append, hfirst']
    exact hfirstExact.start_eq hat hplace hpos
  · rw [endOf, hlast']
    exact ⟨hlastExact.at_stop hat hread, hlastExact.inside⟩

/-- A place that is not inside a step is in front of it or behind it. -/
theorem exists_behind_step {own later before : List Span} (hspans : own ++ later = before ++ behind)
    (hbinds : (own.map (·.token)).IsChain Token.Binds) (hbefore : before ≠ [])
    (hapart : ∀ first ∈ before.getLast?, ∀ second ∈ behind.head?,
      ¬ first.token.Binds second.token) :
    ∃ middle, before = own ++ middle ∧ later = middle ++ behind := by
  rcases List.append_eq_append_iff.mp hspans with hbehind | ⟨inner, rfl, rfl⟩
  · exact hbehind
  · cases inner with
    | nil => exact ⟨[], by simp, by simp⟩
    | cons second inner =>
      obtain ⟨first, hfirst⟩ := Option.isSome_iff_exists.mp (List.getLast?_isSome.mpr hbefore)
      rw [List.isChain_map, List.isChain_append] at hbinds
      exact absurd (hbinds.2.2 first hfirst second rfl) (hapart first hfirst second rfl)

/-- A comment at any place that is free leaves kinds and texts as they are. The induction is on the
scan: each step whose tokens are in front of the place is taken as it was, and the place is free for
the spans that are left. -/
theorem exists_tokens_commented {before : List Span} {mark : Token}
    (h : tokens limit opens afterOperand here = .ok found) (hat : here.At source place)
    (hfound : found = (before ++ behind).map (·.token) ++ [mark])
    (hexact : ∀ span ∈ before ++ behind, span.Exact source)
    (hincreasing : (before ++ behind).Pairwise (·.stop ≤ ·.start))
    (hfree : IsFree source place before behind cut) (hcomment : '\r' ∉ comment) : ∃ again,
      tokens limit opens afterOperand (here.commented (cut - place) comment) = .ok again ∧
        again.map Token.spelling = found.map Token.spelling := by
  fun_induction tokens limit opens afterOperand here generalizing found place before with
  | case1 afterOperand here start =>
    rename_i hrest
    cases h
    have hlength := congrArg List.length hfound
    rw [List.length_append, List.length_map] at hlength
    obtain ⟨rfl, rfl⟩ : before = [] ∧ behind = [] := by
      rw [← List.append_eq_nil_iff, ← List.length_eq_zero_iff]
      simpa using hlength
    have hwhole : tokens limit [] afterOperand here = .ok [⟨.eof, "", here.skipLayout.pos⟩] := by
      rw [tokens_eq, hrest]
    have hstart : here.skipLayout.rest = source.drop source.length :=
      hrest.trans List.drop_length.symm
    exact exists_tokens_commented_first hwhole hat hfree hstart hcomment
  | case2 => cases h
  | case3 => cases h
  | case4 opens afterOperand here start c rest hrest step hstep =>
    rename_i ih
    obtain ⟨others, hothers, rfl⟩ := exists_of_map_eq_ok h
    have hwhole : tokens limit opens afterOperand here = .ok (step.tokens ++ others) := by
      rw [tokens_cons hrest, hstep, Except.bind, hothers]
      rfl
    obtain ⟨own, later, hsplit, hown, hlater⟩ := exists_own_spans hothers hfound
    rw [hsplit] at hexact hincreasing
    have hsound := sound_step hrest hstep
    have hstart : here.skipLayout.At source _ := hat.skip here.passes_skipLayout.front
    obtain ⟨hnonempty, hstarts, hends⟩ := hsound.spans hown
      (fun span hspan ↦ hexact span (List.mem_append_left later hspan)) hstart
        (hstart.lt_length hrest).le
    -- the comment is either in the layout in front of this step, or behind all that it reads
    by_cases hbefore : before = []
    · subst hbefore
      have hbehind : behind = own ++ later := hsplit
      refine exists_tokens_commented_first hwhole hat hfree ?_ hcomment
      rw [hbehind, hstarts]
      exact hstart.rest
    · obtain ⟨middle, rfl, rfl⟩ := exists_behind_step hsplit.symm (hown ▸ hsound.binds) hbefore
        hfree.apart
      obtain ⟨piece, hpiece, hpasses, hcommented⟩ := tokens_commented_step hrest hstep
      have hnext : step.next.At source (place + piece.length) :=
        hpasses.next ▸ hat.skip hpasses.front
      have hplace : place + piece.length = endOf place own :=
        hnext.unique (hat.length_le hpasses.front hpiece) (hends place).1 (hends place).2
      have hexact' : ∀ span ∈ middle ++ behind, span.Exact source :=
        fun span hspan ↦ hexact span (List.mem_append_right own hspan)
      rw [← List.append_assoc] at hincreasing
      have hcut : endOf place own ≤ cut :=
        (endOf_le_append (fun span hspan ↦ hexact' span (List.mem_append_left behind hspan))
          (List.pairwise_append.mp hincreasing).1 hnonempty place).trans hfree.front
      rw [List.append_assoc] at hincreasing
      obtain ⟨again, hagain, hspellings⟩ := ih hothers (hplace ▸ hnext) hlater hexact'
        (List.pairwise_append.mp hincreasing).2.1 hfree.of_append
      have hoffset : cut - place = piece.length + (cut - endOf place own) := by omega
      refine ⟨step.tokens ++ again, ?_, by rw [List.map_append, List.map_append, hspellings]⟩
      rw [hoffset, hcommented, hagain]
      rfl

end Scan

/-- Directly behind a token, or in front of the first one, a comment may be put in. -/
theorem Tiling.isFree {source : List Char} {before behind : List Span}
    (h : Tiling source 0 none (before ++ behind))
    (hapart : ∀ first ∈ before.getLast?, ∀ second ∈ behind.head?,
      ¬ first.token.Binds second.token) : IsFree source 0 before behind (endOf 0 before) := by
  have hnone : source.extract (endOf 0 before) (endOf 0 before) = [] := by
    rw [List.extract_eq_take_drop, Nat.sub_self, List.take_zero]
  have hgap : endOf 0 before ≤ startOf source behind ∧ IsLayout behind.isEmpty
      (source.extract (endOf 0 before) (startOf source behind)) := by
    cases behind with
    | nil =>
      have hlast : IsLayout true (source.drop (endOf 0 before)) := by
        simpa [endOf] using h.last
      have hinside : endOf 0 before ≤ source.length := by
        rw [endOf]
        cases hlast : before.getLast? with
        | none => exact Nat.zero_le _
        | some last =>
          exact (h.exact last (by simp [List.mem_of_mem_getLast? hlast])).inside
      have hall : source.drop (endOf 0 before) = source.extract (endOf 0 before) source.length := by
        rw [drop_eq_extract_append hinside, List.drop_length, List.append_nil]
      exact ⟨hinside, hall ▸ hlast⟩
    | cons second behind =>
      rcases List.eq_nil_or_concat before with rfl | ⟨others, first, rfl⟩
      · exact ⟨Nat.zero_le _, (h.first second rfl).2⟩
      · have hend : endOf 0 (others.concat first) = first.stop := by simp [endOf]
        have hbinds : ¬ first.token.Binds second.token :=
          hapart first (by simp) second rfl
        have hgap := h.between first second
          ⟨others, behind, by simp⟩
        have hpunctuation : Header.punctuation (some first.token.kind) second.token.kind = none :=
          not_not.mp fun hsome ↦ hbinds (.inl hsome)
        rw [IsGap, hpunctuation] at hgap
        rw [hend]
        exact ⟨(List.pairwise_append.mp h.increasing).2.2 first (by simp) second (by simp), hgap⟩
  exact ⟨Nat.le_refl _, hgap.1, hapart, hnone ▸ .nil, hgap.2⟩

/-- A source that has tokens has the same ones, up to their positions, with a comment put in at any
free place: in front of the first token, behind the last one or between two, unless these belong to
one header or are a print and its parenthesis, and not so that it takes apart a comment that stands
there. -/
theorem tokenize_commented {limit : Nat} {source : String} {found : List Token}
    (h : tokenize limit source = .ok found) : ∃ spans : List Span,
      found = spans.map (·.token) ++ [⟨.eof, "", .behind source.toList⟩] ∧
        Tiling source.toList 0 none spans ∧
          ∀ before behind place comment, spans = before ++ behind →
            IsFree source.toList 0 before behind place → '\r' ∉ comment.toList →
              ∃ again, tokenize limit (commented source place comment) = .ok again ∧
                again.map Token.spelling = found.map Token.spelling := by
  have htiles : Tiles none (Cursor.ofText source) found := Scan.tiles_tokens h (by decide)
  have hat := Cursor.at_ofText source
  obtain ⟨spans, hfound, htiling⟩ := htiles source.toList 0 hat
  refine ⟨spans, hfound, htiling, fun before behind place comment hspans hfree hcomment ↦ ?_⟩
  subst hspans
  have hsource : (Cursor.ofText source).commented place comment.toList =
      Cursor.ofText (commented source place comment) := by
    rw [Cursor.commented, commented, Cursor.ofText, Cursor.ofText, String.toList_ofList]
  rw [tokenize, ← hsource]
  exact Scan.exists_tokens_commented h hat hfound htiling.exact htiling.increasing hfree hcomment

/-- A comment in a difference, between the operand and the sign. -/
theorem tokenize_commented_difference : ∃ found again, tokenize 1 "a-1" = .ok found ∧
    tokenize 1 "a //b\r-1" = .ok again ∧ again.map Token.spelling = found.map Token.spelling := by
  have htokens : tokenize 1 "a-1" = .ok [⟨.identifier, "a", ⟨1, 1⟩⟩, ⟨.operator, "-", ⟨1, 2⟩⟩,
      ⟨.number, "1", ⟨1, 3⟩⟩, ⟨.eof, "", ⟨1, 4⟩⟩] := by
    decide +kernel
  obtain ⟨spans, hspans, htiling, hcommented⟩ := tokenize_commented htokens
  cases spans with
  | nil => simp at hspans
  | cons first more =>
    have hfirst : ⟨.identifier, "a", ⟨1, 1⟩⟩ = first.token := (List.cons.inj hspans).1
    have hexact := htiling.exact first List.mem_cons_self
    have hstop : endOf 0 [first] = 1 := by
      change first.stop = 1
      rw [hexact.stop_eq, hexact.start_eq (Cursor.at_ofText "a-1") (Nat.zero_le _) (hfirst ▸ rfl),
        ← hfirst]
      decide
    have hfree : IsFree "a-1".toList 0 [first] more 1 := by
      rw [← hstop]
      refine Tiling.isFree htiling ?_
      rintro other ⟨⟩ second -
      simp [Token.Binds, ← hfirst, Header.punctuation]
    obtain ⟨again, hagain, hsame⟩ := hcommented [first] more 1 "b" rfl hfree (by decide)
    have hsource : commented "a-1" 1 "b" = "a //b\r-1" := by decide
    exact ⟨_, again, htokens, hsource ▸ hagain, hsame⟩

/-- Comments at places that are not free: inside a comment, of which the rest is read then, behind
the name in a header, and between `print` and its parenthesis. -/
theorem tokenize_commented_elsewhere :
    (tokenize 1 "1 // x" = .ok [⟨.number, "1", ⟨1, 1⟩⟩, ⟨.eof, "", ⟨1, 7⟩⟩] ∧
      commented "1 // x" 5 "c" = "1 //  //c\rx" ∧
      tokenize 1 "1 //  //c\rx" =
        .ok [⟨.number, "1", ⟨1, 1⟩⟩, ⟨.identifier, "x", ⟨2, 1⟩⟩, ⟨.eof, "", ⟨2, 2⟩⟩]) ∧
    (tokenize 1 "function f() => 1" = .ok [⟨.functionWord, "function", ⟨1, 1⟩⟩,
        ⟨.functionName, "f", ⟨1, 10⟩⟩, ⟨.doubleArrow, "=>", ⟨1, 14⟩⟩, ⟨.number, "1", ⟨1, 17⟩⟩,
        ⟨.eof, "", ⟨1, 18⟩⟩] ∧
      commented "function f() => 1" 10 "c" = "function f //c\r() => 1" ∧
      tokenize 1 "function f //c\r() => 1" = .error (.error ⟨.missingFunctionParen, ⟨1, 12⟩⟩)) ∧
    (tokenize 1 "print (1)" = .ok [⟨.printWord, "print", ⟨1, 1⟩⟩, ⟨.leftParen, "(", ⟨1, 7⟩⟩,
        ⟨.number, "1", ⟨1, 8⟩⟩, ⟨.rightParen, ")", ⟨1, 9⟩⟩, ⟨.eof, "", ⟨1, 10⟩⟩] ∧
      commented "print (1)" 5 "c" = "print //c\r (1)" ∧
      tokenize 1 "print //c\r (1)" = .error (.error ⟨.missingPrintParen, ⟨1, 7⟩⟩)) := by
  decide +kernel

end Reckoner
