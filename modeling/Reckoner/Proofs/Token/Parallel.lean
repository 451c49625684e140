import Mathlib.Data.List.Forall2
import Reckoner.Proofs.Token.Ending
import Reckoner.Token.Scan

/-!
Scans of one text in two places. The second text may go on behind the first one, with something
that nothing in front of it reaches over, and may stand at another position. Such scans find the
same tokens as long as the first text lasts: what corresponds when they start corresponds after
each step, and both fail or none does.
-/

set_option autoImplicit false
set_option relaxedAutoImplicit false

namespace Reckoner

open Text

/-! ### Results -/

/-- Whether both results are errors, or values that correspond. -/
inductive Alike {ε ε' α β : Type} (R : α → β → Prop) : Except ε α → Except ε' β → Prop where
  | error (error : ε) (error' : ε') : Alike R (.error error) (.error error')
  | ok {value : α} {value' : β} (h : R value value') : Alike R (.ok value) (.ok value')

namespace Alike

variable {ε ε' α β α' β' : Type} {R : α → β → Prop} {S : α' → β' → Prop} {result : Except ε α}
  {result' : Except ε' β}

theorem of_error {error : ε} (h : Alike R (.error error) result') :
    ∃ error', result' = .error error' := by
  cases h with
  | error _ error' => exact ⟨error', rfl⟩

theorem of_ok {value : α} (h : Alike R (.ok value : Except ε α) result') :
    ∃ value', result' = .ok value' ∧ R value value' := by
  cases h with
  | ok h => exact ⟨_, rfl, h⟩

theorem bind {next : α → Except ε α'} {next' : β → Except ε' β'} (h : Alike R result result')
    (hnext : ∀ value value', R value value' → Alike S (next value) (next' value')) :
    Alike S (result >>= next) (result' >>= next') := by
  cases h with
  | error error error' => exact .error error error'
  | ok h => exact hnext _ _ h

theorem map {f : α → α'} {f' : β → β'} (h : Alike R result result')
    (hvalues : ∀ value value', R value value' → S (f value) (f' value')) :
    Alike S (result.map f) (result'.map f') := by
  cases h with
  | error error error' => exact .error error error'
  | ok h => exact .ok (hvalues _ _ h)

theorem imp {S : α → β → Prop} (h : Alike R result result')
    (himp : ∀ value value', R value value' → S value value') : Alike S result result' := by
  cases h with
  | error error error' => exact .error error error'
  | ok h => exact .ok (himp _ _ h)

end Alike

/-! ### Layout -/

namespace Cursor

variable {here : Cursor} {source behind : List Char}

theorem layout_blank {c : Char} {rest : List Char} (h : isBlank c = true) :
    layout false (c :: rest) = c :: layout false rest := by
  have hslash : c ≠ '/' := by
    rintro rfl
    revert h
    decide
  rw [layout.eq_4 _ _ fun _ hc _ ↦ hslash hc, if_pos h]

theorem layout_isPrefix (inComment : Bool) (source : List Char) :
    layout inComment source <+: source := by
  fun_induction layout inComment source with
  | case1 => exact List.prefix_rfl
  | case2 c rest ih => exact List.cons_prefix_cons.mpr ⟨rfl, ih⟩
  | case3 rest ih => exact List.cons_prefix_cons.mpr ⟨rfl, List.cons_prefix_cons.mpr ⟨rfl, ih⟩⟩
  | case4 c rest hslashes hblank ih => exact List.cons_prefix_cons.mpr ⟨rfl, ih⟩
  | case5 c rest hslashes hblank => exact List.nil_prefix

theorem rest_skipLayout_eq_nil :
    here.skipLayout.rest = [] ↔ layout false here.rest = here.rest := by
  change here.rest.drop (layout false here.rest).length = [] ↔ _
  rw [List.drop_eq_nil_iff]
  constructor
  · exact fun h ↦ (layout_isPrefix false here.rest).eq_of_length_le h
  · exact fun h ↦ by rw [h]

/-- Layout that ends inside a text ends there whatever follows the text. -/
theorem layout_append_of_ne {inComment : Bool} (hbehind : Apart behind)
    (h : layout inComment source ≠ source) :
    layout inComment (source ++ behind) = layout inComment source := by
  fun_induction layout inComment source with
  | case1 => exact absurd rfl h
  | case2 c rest ih =>
    rw [List.cons_append, layout, ih fun heq ↦ h (by rw [heq])]
  | case3 rest ih =>
    rw [List.cons_append, List.cons_append, layout, ih fun heq ↦ h (by rw [heq])]
  | case4 c rest hslashes hblank ih =>
    rw [List.cons_append, layout_blank hblank, ih fun heq ↦ h (by rw [heq])]
  | case5 c rest hslashes hblank =>
    rw [List.cons_append, layout.eq_4, if_neg hblank]
    rintro more rfl hmore
    cases rest with
    | nil => exact (hbehind '/' (by rw [← List.nil_append behind, hmore]; rfl)).2.2.2.2 rfl
    | cons d rest => exact hslashes rest rfl (by rw [(List.cons.inj hmore).1])

/-- Layout that takes up a whole text goes on behind it. -/
theorem layout_append_of_eq {inComment : Bool} (h : layout inComment source = source) :
    ∃ stillInComment, ∀ more,
      layout inComment (source ++ more) = source ++ layout stillInComment more := by
  fun_induction layout inComment source with
  | case1 inComment => exact ⟨inComment, fun _ ↦ rfl⟩
  | case2 c rest ih =>
    obtain ⟨flag, hflag⟩ := ih (List.cons.inj h).2
    exact ⟨flag, fun more ↦ by rw [List.cons_append, layout, hflag, List.cons_append]⟩
  | case3 rest ih =>
    obtain ⟨flag, hflag⟩ := ih (List.cons.inj (List.cons.inj h).2).2
    exact ⟨flag, fun more ↦ by simp only [List.cons_append, layout, hflag]⟩
  | case4 c rest hslashes hblank ih =>
    obtain ⟨flag, hflag⟩ := ih (List.cons.inj h).2
    refine ⟨flag, fun more ↦ ?_⟩
    rw [List.cons_append, layout_blank hblank, hflag, List.cons_append]
  | case5 c rest hslashes hblank => cases h

theorem layout_eq_nil_iff {c : Char} {rest : List Char} : layout false (c :: rest) = [] ↔
    isBlank c = false ∧ (c = '/' → rest.head? ≠ some '/') := by
  by_cases hslashes : c = '/' ∧ rest.head? = some '/'
  · obtain ⟨rfl, hrest⟩ := hslashes
    obtain ⟨more, rfl⟩ := List.head?_eq_some_iff.mp hrest
    simp [layout]
  · have hother : ∀ more, c = '/' → rest = '/' :: more → False := by
      rintro more rfl rfl
      exact hslashes ⟨rfl, rfl⟩
    rw [layout.eq_4 _ _ hother]
    simpa using fun _ hc hhead ↦ hslashes ⟨hc, hhead⟩

/-- Behind layout there is none. -/
theorem layout_drop_layout (inComment : Bool) (source : List Char) :
    layout false (source.drop (layout inComment source).length) = [] := by
  fun_induction layout inComment source with
  | case1 => rfl
  | case2 c rest ih => exact ih
  | case3 rest ih => exact ih
  | case4 c rest hslashes hblank ih => exact ih
  | case5 c rest hslashes hblank =>
    rw [List.length_nil, List.drop_zero, layout.eq_4 _ _ hslashes, if_neg hblank]

/-- Layout does not end before a blank. -/
theorem isBlank_of_drop_layout {inComment : Bool} {c : Char} {rest : List Char}
    (h : source.drop (layout inComment source).length = c :: rest) : isBlank c = false :=
  (layout_eq_nil_iff.mp (h ▸ layout_drop_layout inComment source)).1

end Cursor

/-! ### Cursors -/

/-- A piece of a text is not read across the start of another text that none of its characters
stands at. -/
theorem isPrefix_append_iff {piece source behind : List Char}
    (h : ∀ d ∈ behind.head?, d ∉ piece) : piece <+: source ++ behind ↔ piece <+: source := by
  refine ⟨fun hpiece ↦ ?_, fun hpiece ↦ hpiece.trans (List.prefix_append _ _)⟩
  induction piece generalizing source with
  | nil => exact List.nil_prefix
  | cons c piece ih =>
    cases source with
    | nil =>
      obtain ⟨rest, rfl⟩ := hpiece
      exact absurd List.mem_cons_self (h c rfl)
    | cons d source =>
      obtain ⟨rfl, hmore⟩ := List.cons_prefix_cons.mp hpiece
      have hpiece := ih (fun e he hmem ↦ h e he (List.mem_cons_of_mem _ hmem)) hmore
      exact List.cons_prefix_cons.mpr ⟨rfl, hpiece⟩

/-- Whether a text starts with nothing that a lexeme, a header or the start of a print in front of
it could go on with. -/
structure Closed (behind : List Char) : Prop where
  apart : Apart behind
  sign : ∀ d ∈ behind.head?, isBlank d = false ∧ d ≠ '(' ∧ d ≠ ')' ∧ d ≠ ','

theorem closed_nil : Closed [] :=
  ⟨apart_nil, nofun⟩

/-- A relation between cursors of which the second one has the text of the first before it, and
then the text `behind`. It is kept when both pass over the same piece of text. -/
structure Parallel (behind : List Char) (C : Cursor → Cursor → Prop) : Prop where
  closed : Closed behind
  rest : ∀ {here here'}, C here here' → here'.rest = here.rest ++ behind
  skip : ∀ {here here' piece}, C here here' → piece <+: here.rest →
    C (here.skip piece) (here'.skip piece)

/-- The same token, read at cursors that correspond. -/
structure Token.Corresponds (C : Cursor → Cursor → Prop) (token token' : Token) : Prop where
  kind : token'.kind = token.kind
  text : token'.text = token.text
  pos : ∃ here here', C here here' ∧ token.pos = here.pos ∧ token'.pos = here'.pos

section

variable {behind : List Char} {C : Cursor → Cursor → Prop} {here here' : Cursor}

theorem Token.corresponds_mk (h : C here here') (kind : TokenKind) (text : String) :
    Token.Corresponds C ⟨kind, text, here.pos⟩ ⟨kind, text, here'.pos⟩ :=
  ⟨rfl, rfl, here, here', h, rfl, rfl⟩

namespace Parallel

theorem skipBlanks (hC : Parallel behind C) (h : C here here') :
    C here.skipBlanks here'.skipBlanks := by
  have hblanks : here'.rest.takeWhile isBlank = here.rest.takeWhile isBlank := by
    rw [hC.rest h]
    exact takeWhile_append_of_head fun d hd ↦ (hC.closed.sign d hd).1
  unfold Cursor.skipBlanks
  rw [hblanks]
  exact hC.skip h (List.takeWhile_prefix _)

/-- Layout that ends inside the first text ends at the same place of the second one. -/
theorem skipLayout (hC : Parallel behind C) (h : C here here')
    (hends : Cursor.layout false here.rest ≠ here.rest) : C here.skipLayout here'.skipLayout := by
  have hlayout : Cursor.layout false here'.rest = Cursor.layout false here.rest := by
    rw [hC.rest h]
    exact Cursor.layout_append_of_ne hC.closed.apart hends
  unfold Cursor.skipLayout
  rw [hlayout]
  exact hC.skip h (Cursor.layout_isPrefix false _)

/-- Passing over a character that both cursors stand at. -/
theorem skip_char (hC : Parallel behind C) (h : C here here') {c : Char} {rest : List Char}
    (hrest : here.rest = c :: rest) : C (here.skip [c]) (here'.skip [c]) :=
  hC.skip h ⟨rest, by rw [hrest]; rfl⟩

/-- Where the first cursor does not stand at a piece of text that cannot reach into what is
behind, the second one does not either. -/
theorem rest_ne (hC : Parallel behind C) (h : C here here') (piece : List Char)
    (hbehind : ∀ d ∈ behind.head?, d ∉ piece) (hne : ∀ rest, here.rest ≠ piece ++ rest)
    (rest : List Char) : here'.rest ≠ piece ++ rest := by
  intro hrest
  have hpiece : piece <+: here.rest ++ behind := ⟨rest, by rw [← hrest, hC.rest h]⟩
  obtain ⟨more, hmore⟩ := (isPrefix_append_iff hbehind).mp hpiece
  exact hne more hmore.symm

theorem rest_cons (hC : Parallel behind C) (h : C here here') {c : Char} {rest : List Char}
    (hrest : here.rest = c :: rest) : here'.rest = c :: (rest ++ behind) := by
  rw [hC.rest h, hrest, List.cons_append]

end Parallel

namespace Cursor

/-- The cursor in a text that goes on with another one. -/
def followed (here : Cursor) (behind : List Char) : Cursor :=
  ⟨here.rest ++ behind, here.pos⟩

/-- A cursor, and the same one where its text goes on. -/
theorem parallel_followed (h : Closed behind) :
    Parallel behind fun here here' ↦ here' = here.followed behind where
  closed := h
  rest := by
    rintro here here' rfl
    rfl
  skip := by
    rintro here here' piece rfl hpiece
    simp only [Cursor.skip, followed, List.drop_append_of_le_length hpiece.length_le]

end Cursor

/-- Tokens that are read where a text goes on are those that are read in the text alone. -/
theorem Token.eq_of_corresponds_followed {found found' : List Token}
    (h : List.Forall₂ (Token.Corresponds fun here here' ↦ here' = here.followed behind) found
      found') : found' = found := by
  induction h with
  | nil => rfl
  | @cons token token' _ _ htoken _ ih =>
    obtain ⟨hkind, htext, here, here', rfl, hpos, hpos'⟩ := htoken
    cases token
    cases token'
    cases hkind
    cases htext
    cases hpos'.trans hpos.symm
    rw [ih]

/-! ### Headers -/

namespace Header

/-- What is read, and where the reading has come to, corresponds. -/
def Matches {α : Type} (R : α → α → Prop) (C : Cursor → Cursor → Prop)
    (found found' : α × Cursor) : Prop :=
  R found.1 found'.1 ∧ C found.2 found'.2

theorem name?_eq (hC : Parallel behind C) (h : C here here') : name? here' = name? here := by
  unfold name?
  rw [hC.rest h]
  cases here.rest with
  | nil =>
    cases behind with
    | nil => rfl
    | cons d behind =>
      have hletter : isLetter d = false := by
        rw [Bool.eq_false_iff]
        intro hletter
        have hword := isWordChar_of_isLetter d hletter
        rw [(hC.closed.apart d rfl).1] at hword
        cases hword
      simp [hletter]
  | cons c rest =>
    dsimp only [List.cons_append]
    rw [← List.cons_append, Lexeme.word_append hC.closed.apart]

theorem name?_isPrefix {name : List Char} (h : name? here = some name) : name <+: here.rest := by
  unfold name? at h
  split at h
  · cases h
  · next c rest hrest =>
    split at h
    · cases h
      rw [hrest]
      exact List.takeWhile_prefix _
    · cases h

theorem name_alike (hC : Parallel behind C) (h : C here here') (kind : TokenKind)
    (cause : LexError.Cause) :
    Alike (Matches (Token.Corresponds C) C) (name kind cause here) (name kind cause here') := by
  have hstart := hC.skipBlanks h
  unfold name
  dsimp only
  rw [name?_eq hC hstart]
  cases hname : name? here.skipBlanks with
  | none => exact .error _ _
  | some name =>
    exact .ok ⟨Token.corresponds_mk hstart _ _,
      hC.skipBlanks (hC.skip hstart (name?_isPrefix hname))⟩

theorem parameters_alike (hC : Parallel behind C) (h : C here here') :
    Alike (Matches (List.Forall₂ (Token.Corresponds C)) C) (parameters here)
      (parameters here') := by
  have hname' {here here' next : Cursor} {token : Token} (h : C here here')
      (hname : name .parameter .missingParameterName here = .ok (token, next)) :
      ∃ token' next', name .parameter .missingParameterName here' = .ok (token', next') ∧
        Token.Corresponds C token token' ∧ C next next' := by
    obtain ⟨⟨token', next'⟩, hname', hmatches⟩ := (hname ▸ name_alike hC h _ _).of_ok
    exact ⟨token', next', hname', hmatches⟩
  fun_induction parameters here generalizing here' with
  | case1 here error hname =>
    obtain ⟨error', hname'⟩ := (hname ▸ name_alike hC h _ _).of_error
    rw [parameters_eq here', hname']
    exact .error _ _
  | case2 here token next hname rest hrest =>
    obtain ⟨token', next', hname', htoken, hnext⟩ := hname' h hname
    rw [parameters_eq here', hname']
    simp only [hC.rest_cons hnext hrest]
    exact .ok ⟨.cons htoken .nil, hC.skip_char hnext hrest⟩
  | case3 here token next hname rest hrest ih =>
    obtain ⟨token', next', hname', htoken, hnext⟩ := hname' h hname
    rw [parameters_eq here', hname']
    simp only [hC.rest_cons hnext hrest]
    exact (ih (hC.skip_char hnext hrest)).map fun _ _ hmore ↦ ⟨.cons htoken hmore.1, hmore.2⟩
  | case4 here token next hname hclose hcomma =>
    obtain ⟨token', next', hname', -, hnext⟩ := hname' h hname
    have hclose' := hC.rest_ne hnext [')']
      (fun d hd ↦ by simpa using (hC.closed.sign d hd).2.2.1) hclose
    have hcomma' := hC.rest_ne hnext [',']
      (fun d hd ↦ by simpa using (hC.closed.sign d hd).2.2.2) hcomma
    rw [parameters_eq here', hname']
    dsimp only
    split
    · next rest hrest => exact absurd hrest (hclose' rest)
    · next rest hrest => exact absurd hrest (hcomma' rest)
    · exact .error _ _

theorem parameterList_alike (hC : Parallel behind C) (h : C here here') :
    Alike (Matches (List.Forall₂ (Token.Corresponds C)) C) (parameterList here)
      (parameterList here') := by
  unfold parameterList
  split
  · next rest hrest =>
    have hinner := hC.skipBlanks (hC.skip_char h hrest)
    simp only [hC.rest_cons h hrest]
    split
    · next more hmore =>
      simp only [hC.rest_cons hinner hmore]
      exact .ok ⟨.nil, hC.skip_char hinner hmore⟩
    · next hclose =>
      have hclose' := hC.rest_ne hinner [')']
        (fun d hd ↦ by simpa using (hC.closed.sign d hd).2.2.1) hclose
      split
      · next more hmore => exact absurd hmore (hclose' more)
      · exact parameters_alike hC hinner
  · next hopen =>
    have hopen' := hC.rest_ne h ['(']
      (fun d hd ↦ by simpa using (hC.closed.sign d hd).2.1) hopen
    split
    · next rest hrest => exact absurd hrest (hopen' rest)
    · exact .error _ _

theorem arrow_alike (hC : Parallel behind C) (h : C here here') :
    Alike (Matches (Token.Corresponds C) C) (arrow here) (arrow here') := by
  have hstart := hC.skipBlanks h
  by_cases hsign : ∃ more, here.skipBlanks.rest = '=' :: '>' :: more
  · obtain ⟨more, hmore⟩ := hsign
    rw [arrow_of_sign hmore, arrow_of_sign (hC.rest_cons hstart hmore)]
    exact .ok ⟨Token.corresponds_mk hstart _ _, hC.skip hstart ⟨more, hmore.symm⟩⟩
  · have hno : ∀ more, here.skipBlanks.rest ≠ '=' :: '>' :: more := not_exists.mp hsign
    have hno' := hC.rest_ne hstart ['=', '>'] (fun d hd ↦ by
      have hd := hC.closed.apart d hd
      simp [hd.2.2.1, hd.2.2.2.1]) hno
    have hword : Lexeme.word here'.skipBlanks.rest = Lexeme.word here.skipBlanks.rest := by
      rw [hC.rest hstart]
      exact Lexeme.word_append hC.closed.apart
    rw [arrow_of_no_sign hno, arrow_of_no_sign hno', hword]
    split
    · exact .ok ⟨Token.corresponds_mk hstart _ _, hC.skip hstart (List.takeWhile_prefix _)⟩
    · exact .error _ _

theorem read_alike (hC : Parallel behind C) (h : C here here') :
    Alike (Matches (List.Forall₂ (Token.Corresponds C)) C) (read here) (read here') := by
  unfold read
  refine (name_alike hC h _ _).bind fun name name' hname ↦ ?_
  refine (parameterList_alike hC hname.2).bind fun list list' hlist ↦ ?_
  refine (arrow_alike hC hlist.2).bind fun arrow arrow' harrow ↦ .ok ⟨?_, harrow.2⟩
  exact .cons hname.1 (List.rel_append hlist.1 (.cons harrow.1 .nil))

end Header

/-! ### Scans -/

namespace Scan

variable {limit : Nat} {opens opens' : List OpenPrint} {afterOperand : Bool} {c : Char}
  {rest : List Char}

/-- Of the open prints only the numbers of their open parentheses matter to what follows. -/
theorem depths_track {kind : TokenKind} (h : opens'.map (·.depth) = opens.map (·.depth)) :
    (track opens' kind).map (·.depth) = (track opens kind).map (·.depth) := by
  cases opens with
  | nil =>
    rw [List.map_nil, List.map_eq_nil_iff] at h
    rw [h]
  | cons innermost outer =>
    obtain ⟨innermost', outer', rfl, hdepth, houter⟩ := List.map_eq_cons_iff.mp h
    have hsame : innermost'.depth = innermost.depth := hdepth
    have hclosed : (track (innermost' :: outer') .rightParen).map (·.depth) =
        (track (innermost :: outer) .rightParen).map (·.depth) := by
      by_cases hlast : innermost.depth ≤ 1
      · simpa [track, hsame, hlast] using houter
      · simpa [track, hsame, hlast] using houter
    cases kind with
    | rightParen => exact hclosed
    | leftParen => simpa [track, hsame] using houter
    | _ => exact h

theorem printParen_alike (hC : Parallel behind C) (h : C here here') :
    Alike (Header.Matches (Token.Corresponds C) C) (printParen here) (printParen here') := by
  have hstart := hC.skipBlanks h
  unfold printParen
  dsimp only
  split
  · next rest hrest =>
    simp only [hC.rest_cons hstart hrest]
    exact .ok ⟨Token.corresponds_mk hstart _ _, hC.skip_char hstart hrest⟩
  · next hopen =>
    have hopen' := hC.rest_ne hstart ['(']
      (fun d hd ↦ by simpa using (hC.closed.sign d hd).2.1) hopen
    split
    · next rest hrest => exact absurd hrest (hopen' rest)
    · exact .error _ _

/-- The same step, at cursors that correspond. -/
structure Step.Corresponds (C : Cursor → Cursor → Prop) (found found' : Step) : Prop where
  tokens : List.Forall₂ (Token.Corresponds C) found.tokens found'.tokens
  opens : found'.opens.map (·.depth) = found.opens.map (·.depth)
  afterOperand : found'.afterOperand = found.afterOperand
  next : C found.next found'.next

/-- Both scans take the same step, if the lexeme at the cursors is the same. -/
theorem step_alike (limit : Nat) (hC : Parallel behind C) (h : C here here')
    (hrest : here.rest = c :: rest) (hopens : opens'.map (·.depth) = opens.map (·.depth))
    (hread : Lexeme.read afterOperand c (rest ++ behind) = Lexeme.read afterOperand c rest) :
    Alike (Step.Corresponds C) (step limit opens afterOperand here c rest)
      (step limit opens' afterOperand here' c (rest ++ behind)) := by
  have hlength : opens'.length = opens.length := by simpa using congrArg List.length hopens
  unfold step
  rw [hread]
  cases hlexeme : Lexeme.read afterOperand c rest with
  | error cause => exact .error _ _
  | ok lexeme =>
    obtain ⟨more, last, hspan, rfl, -⟩ := Lexeme.read_span hlexeme
    have htoken : Token.Corresponds C (lexeme.token here.pos) (lexeme.token here'.pos) :=
      Token.corresponds_mk h _ _
    have hbehind : C (here.skip lexeme.span) (here'.skip lexeme.span) :=
      hC.skip h ⟨last, by rw [hspan, hrest, List.cons_append]⟩
    dsimp only
    split
    · have hheader := Header.read_alike hC hbehind
      cases hread : Header.read (here.skip lexeme.span) with
      | error error =>
        obtain ⟨error', hread'⟩ := (hread ▸ hheader).of_error
        rw [hread']
        exact .error _ _
      | ok header =>
        obtain ⟨header', hread', hheader⟩ := (hread ▸ hheader).of_ok
        rw [hread']
        exact .ok ⟨.cons htoken hheader.1, hopens, rfl, hheader.2⟩
    · have hparen := printParen_alike hC hbehind
      cases hread : printParen (here.skip lexeme.span) with
      | error error =>
        obtain ⟨error', hread'⟩ := (hread ▸ hparen).of_error
        rw [hread']
        exact .error _ _
      | ok paren =>
        obtain ⟨paren', hread', hparen⟩ := (hread ▸ hparen).of_ok
        rw [hread']
        dsimp only
        rw [hlength]
        split
        · exact .error _ _
        · exact .ok ⟨.cons htoken (.cons hparen.1 .nil), by simp [hopens], rfl, hparen.2⟩
    · exact .ok ⟨.cons htoken .nil, depths_track hopens, rfl, hbehind⟩

/-- Where there is something behind the layout, a scan takes a step and goes on. -/
theorem tokens_cons {here : Cursor} (h : here.skipLayout.rest = c :: rest) :
    tokens limit opens afterOperand here =
      (step limit opens afterOperand here.skipLayout c rest).bind fun found ↦
        (tokens limit found.opens found.afterOperand found.next).map (found.tokens ++ ·) := by
  rw [tokens_eq, h]
  dsimp only
  cases step limit opens afterOperand here.skipLayout c rest <;> rfl

/-- Scans of the same text find the same tokens, or both fail. -/
theorem tokens_alike {C : Cursor → Cursor → Prop} (hC : Parallel [] C) (h : C here here')
    (hopens : opens'.map (·.depth) = opens.map (·.depth)) :
    Alike (List.Forall₂ (Token.Corresponds C)) (tokens limit opens afterOperand here)
      (tokens limit opens' afterOperand here') := by
  have hstart {here here' : Cursor} (h : C here here') : C here.skipLayout here'.skipLayout := by
    unfold Cursor.skipLayout
    rw [hC.rest h, List.append_nil]
    exact hC.skip h (Cursor.layout_isPrefix false _)
  have hrest' {here here' : Cursor} (h : C here here') :
      here'.skipLayout.rest = here.skipLayout.rest := by
    rw [hC.rest (hstart h), List.append_nil]
  have hstep' {opens opens' : List OpenPrint} {afterOperand : Bool} {here here' : Cursor} {c : Char}
      {rest : List Char} (h : C here here') (hrest : here.skipLayout.rest = c :: rest)
      (hopens : opens'.map (·.depth) = opens.map (·.depth)) :
      Alike (Step.Corresponds C) (step limit opens afterOperand here.skipLayout c rest)
        (step limit opens' afterOperand here'.skipLayout c rest) := by
    have hread : Lexeme.read afterOperand c (rest ++ []) = Lexeme.read afterOperand c rest := by
      rw [List.append_nil]
    simpa using step_alike limit hC (hstart h) hrest hopens hread
  fun_induction tokens limit opens afterOperand here generalizing opens' here' with
  | case1 afterOperand here start =>
    rename_i hrest
    obtain rfl := List.map_eq_nil_iff.mp hopens
    rw [tokens_eq limit [] afterOperand here', hrest' h, hrest]
    exact .ok (.cons (Token.corresponds_mk (hstart h) _ _) .nil)
  | case2 afterOperand here start hrest =>
    obtain ⟨innermost', outer', rfl, -⟩ := List.map_eq_cons_iff.mp hopens
    rw [tokens_eq limit (innermost' :: outer'), hrest' h, hrest]
    exact .error _ _
  | case3 opens afterOperand here start c rest hrest fault =>
    rename_i hstep
    obtain ⟨fault', hstep'⟩ := (hstep ▸ hstep' h hrest hopens).of_error
    rw [tokens_cons ((hrest' h).trans hrest), hstep']
    exact .error _ _
  | case4 opens afterOperand here start c rest hrest found hstep =>
    rename_i ih
    obtain ⟨found', hstep', hfound⟩ := (hstep ▸ hstep' h hrest hopens).of_ok
    rw [tokens_cons ((hrest' h).trans hrest), hstep', Except.bind, hfound.afterOperand]
    exact (ih hfound.next hfound.opens).map fun _ _ hmore ↦ List.rel_append hfound.tokens hmore

end Scan

end

end Reckoner
