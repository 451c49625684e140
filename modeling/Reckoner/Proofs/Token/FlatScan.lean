import Reckoner.Proofs.Token.Balance
import Reckoner.Proofs.Token.Folding
import Reckoner.Proofs.Token.Kinds
import Reckoner.Proofs.Token.Words

/-!
A scan that reads nothing behind `print`. It finds what the scan with open prints finds, token for
token, in the sources that this one accepts: those in which a parenthesis opens behind every `print`
and has a partner.
-/

set_option autoImplicit false
set_option relaxedAutoImplicit false

namespace Reckoner

open Text

namespace Scan

/-- What a step reads where `print` is a word like others: it brings nothing with it, and no print
is open. -/
def flatStep (afterOperand : Bool) (here : Cursor) (c : Char) (rest : List Char) :
    Except LexError Step :=
  match Lexeme.read afterOperand c rest with
  | .error cause => .error ⟨cause, here.pos⟩
  | .ok lexeme =>
    let token := lexeme.token here.pos
    let behind := here.skip lexeme.span
    match lexeme.kind with
    | .functionWord =>
      match Header.read behind with
      | .error error => .error error
      | .ok (header, next) => .ok ⟨token :: header, [], false, next⟩
    | kind => .ok ⟨[token], [], kind.endsOperand, behind⟩

theorem length_flatStep {afterOperand : Bool} {here : Cursor} {c : Char} {rest : List Char}
    {found : Step} (hrest : here.rest = c :: rest)
    (h : flatStep afterOperand here c rest = .ok found) :
    found.next.rest.length < here.rest.length := by
  unfold flatStep at h
  split at h
  · cases h
  · next lexeme hlexeme =>
    have hspan := List.length_pos_iff.mpr (Lexeme.span_ne_nil hlexeme)
    have hbehind : (here.skip lexeme.span).rest.length < here.rest.length := by
      rw [Cursor.length_skip, hrest, List.length_cons]
      omega
    dsimp only at h
    split at h
    · split at h
      · cases h
      · next header next hheader =>
        cases h
        exact Nat.lt_of_le_of_lt (Header.length_read hheader) hbehind
    · cases h
      exact hbehind

/-- The tokens from the cursor on, the last one marking the end, where `print` is a word like
others. -/
def flatTokens (afterOperand : Bool) (here : Cursor) : Except LexError (List Token) :=
  let start := here.skipLayout
  match _hrest : start.rest with
  | [] => .ok [⟨.eof, "", start.pos⟩]
  | c :: rest =>
    match _hstep : flatStep afterOperand start c rest with
    | .error error => .error error
    | .ok found => (flatTokens found.afterOperand found.next).map (found.tokens ++ ·)
  termination_by here.rest.length
  decreasing_by
    exact Nat.lt_of_lt_of_le (length_flatStep _hrest _hstep) (Cursor.length_skipLayout here)

variable {limit : Nat} {opens : List OpenPrint} {afterOperand : Bool} {here behind next : Cursor}
  {c : Char} {rest : List Char} {paren : Token} {found : Step}

theorem flatTokens_nil (h : here.skipLayout.rest = []) :
    flatTokens afterOperand here = .ok [⟨.eof, "", here.skipLayout.pos⟩] := by
  rw [flatTokens.eq_def]
  dsimp only
  split
  · rfl
  · next hrest =>
    rw [h] at hrest
    cases hrest

theorem flatTokens_cons (h : here.skipLayout.rest = c :: rest) :
    flatTokens afterOperand here =
      (flatStep afterOperand here.skipLayout c rest).bind fun found ↦
        (flatTokens found.afterOperand found.next).map (found.tokens ++ ·) := by
  rw [flatTokens.eq_def]
  dsimp only
  split
  · next hrest =>
    rw [h] at hrest
    cases hrest
  · next hrest =>
    rw [h] at hrest
    cases hrest
    split
    · next hstep =>
      rw [hstep]
      rfl
    · next hstep =>
      rw [hstep]
      rfl

end Scan

/-- The tokens of a source text, the last one marking its end, where `print` is a word like
others. -/
def flatTokenize (source : String) : Except LexError (List Token) :=
  Scan.flatTokens false (.ofText source)

/-! ### The parenthesis behind a print -/

/-- Whether the token stands in the source, with an opening parenthesis behind it and nothing but
blanks in between. -/
def Token.OpensIn (source : List Char) (token : Token) : Prop :=
  ∃ front blanks behind, source = front ++ token.text.toList ++ blanks ++ '(' :: behind ∧
    token.pos = .behind front ∧ ∀ c ∈ blanks, isBlank c = true

namespace Pos

/-- Texts from the front of a source that come to one position are the same. -/
theorem length_eq_of_behind {source front : List Char} {place : Nat} (hfront : front <+: source)
    (hplace : place ≤ source.length) (h : behind front = behind (source.take place)) :
    front.length = place := by
  rw [List.prefix_iff_eq_take.mp hfront] at h
  rcases Nat.lt_trichotomy front.length place with hlt | heq | hgt
  · exact absurd h (before_behind_take hlt hplace).ne
  · exact heq
  · exact absurd h.symm (before_behind_take hgt hfront.length_le).ne

end Pos

namespace Cursor

/-- The blanks in front of a parenthesis are all the layout there is. -/
theorem skipBlanks_of_paren {here : Cursor} {blanks behind : List Char}
    (h : here.rest = blanks ++ '(' :: behind) (hblanks : ∀ c ∈ blanks, isBlank c = true) :
    here.skipBlanks = here.skip blanks :=
  skipBlanks_of_blanks h hblanks fun c hc ↦ by cases hc; decide

theorem skipLayout_of_paren {here : Cursor} {blanks behind : List Char}
    (h : here.rest = blanks ++ '(' :: behind) (hblanks : ∀ c ∈ blanks, isBlank c = true) :
    here.skipLayout = here.skip blanks := by
  have hlayout : layout false here.rest = blanks := by
    rw [h, layout_append_of_isLayout (isLayout_of_isBlank hblanks false)]
    exact List.append_nil blanks
  rw [skipLayout, hlayout]

end Cursor

/-- At its own place a token is followed by what the cursor has before it. -/
theorem Token.opensIn_iff {source : List Char} {place : Nat} {here : Cursor} {token : Token}
    (hat : here.At source place) {c : Char} {more : List Char} (hrest : here.rest = c :: more)
    (hpos : token.pos = here.pos) (hpiece : token.text.toList <+: here.rest) :
    token.OpensIn source ↔ ∃ blanks behind,
      (here.skip token.text.toList).rest = blanks ++ '(' :: behind ∧
        ∀ c ∈ blanks, isBlank c = true := by
  have hplace : place ≤ source.length := (hat.lt_length hrest).le
  obtain ⟨rest, hrest⟩ := hpiece
  rw [Cursor.rest_skip hrest.symm]
  rw [hat.rest] at hrest
  constructor
  · rintro ⟨front, blanks, behind, hsource, hfront, hblanks⟩
    rw [List.append_assoc, List.append_assoc] at hsource
    have hlength : front.length = place :=
      Pos.length_eq_of_behind ⟨_, hsource.symm⟩ hplace (hfront.symm.trans (hpos.trans hat.pos))
    rw [← hlength, hsource, List.drop_left] at hrest
    exact ⟨blanks, behind, List.append_cancel_left hrest, hblanks⟩
  · rintro ⟨blanks, behind, rfl, hblanks⟩
    refine ⟨source.take place, blanks, behind, ?_, hpos.trans hat.pos, hblanks⟩
    rw [List.append_assoc, List.append_assoc, hrest, List.take_append_drop]

namespace Scan

theorem printParen_eq_ok_iff {here next : Cursor} {paren : Token} :
    printParen here = .ok (paren, next) ↔ ∃ blanks behind, here.rest = blanks ++ '(' :: behind ∧
      (∀ c ∈ blanks, isBlank c = true) ∧ paren = ⟨.leftParen, "(", (here.skip blanks).pos⟩ ∧
        next = (here.skip blanks).skip ['('] := by
  constructor
  · intro h
    unfold printParen at h
    dsimp only at h
    split at h
    · next behind hbehind =>
      cases h
      refine ⟨_, behind, ?_, fun c hc ↦ List.mem_takeWhile_imp hc, rfl, rfl⟩
      rw [← hbehind]
      exact here.passes_skipBlanks.rest_eq
    · cases h
  · rintro ⟨blanks, behind, hrest, hblanks, rfl, rfl⟩
    rw [printParen]
    simp only [Cursor.skipBlanks_of_paren hrest hblanks, Cursor.rest_skip hrest]

variable {limit : Nat} {opens : List OpenPrint} {afterOperand : Bool} {here behind next : Cursor}
  {c : Char} {rest : List Char} {paren : Token} {found : Step}

/-- The parenthesis behind a print is the next token of the flat scan. -/
theorem flatTokens_paren (afterOperand : Bool) (h : printParen behind = .ok (paren, next)) :
    flatTokens afterOperand behind = (flatTokens false next).map ([paren] ++ ·) := by
  obtain ⟨blanks, more, hrest, hblanks, rfl, rfl⟩ := printParen_eq_ok_iff.mp h
  have hlayout := Cursor.skipLayout_of_paren hrest hblanks
  have hstart : behind.skipLayout.rest = '(' :: more := by
    rw [hlayout, Cursor.rest_skip hrest]
  have hread := Lexeme.read_punctuation afterOperand more
    (show TokenKind.ofPunctuation? '(' = some .leftParen from rfl)
  rw [flatTokens_cons hstart, flatStep, hread, hlayout]
  rfl

/-- The rest of a step behind `print`. -/
def printStep (limit : Nat) (opens : List OpenPrint) (print : Token) (behind : Cursor) :
    Except (Fault LexError) Step :=
  match printParen behind with
  | .error error => .error (.error error)
  | .ok (paren, next) =>
    if limit ≤ opens.length then .error .tooDeep
    else .ok ⟨[print, paren], ⟨paren.pos, 1⟩ :: opens, false, next⟩

theorem printStep_eq_ok_iff {print : Token} : printStep limit opens print behind = .ok found ↔
    opens.length < limit ∧ ∃ paren next, printParen behind = .ok (paren, next) ∧
      found = ⟨[print, paren], ⟨paren.pos, 1⟩ :: opens, false, next⟩ := by
  unfold printStep
  cases printParen behind with
  | error error => simp
  | ok read =>
    obtain ⟨paren, next⟩ := read
    dsimp only
    split
    · next hlimit => simp [Nat.not_lt.mpr hlimit]
    · next hlimit => simp [Nat.lt_of_not_le hlimit, eq_comm]

/-- Whether the step reads a `print` at the cursor and nothing else. -/
structure ReadsPrint (here : Cursor) (print : Token) (flat : Step) : Prop where
  kind : print.kind = .printWord
  tokens : flat.tokens = [print]
  pos : print.pos = here.pos
  piece : print.text.toList <+: here.rest
  next : flat.next = here.skip print.text.toList

theorem readsPrint_of_read {lexeme : Lexeme} (hrest : here.rest = c :: rest)
    (h : Lexeme.read afterOperand c rest = .ok lexeme) (hprint : lexeme.kind = .printWord) :
    ReadsPrint here (lexeme.token here.pos)
      ⟨[lexeme.token here.pos], [], lexeme.kind.endsOperand, here.skip lexeme.span⟩ := by
  obtain ⟨more, behind, hspan, rfl, -⟩ := Lexeme.read_span h
  have htext : lexeme.span = (lexeme.token here.pos).text.toList := by
    rw [Lexeme.token, String.toList_ofList]
    rcases Lexeme.isPlain_or_quoted h with hplain | ⟨body, -, rfl⟩
    · exact hplain.2
    · cases hprint
  refine ⟨hprint, rfl, rfl, ⟨behind, ?_⟩, congrArg here.skip htext⟩
  rw [← htext, hspan, hrest, List.cons_append]

/-- A step fails where the flat step does, and with the same error. -/
theorem step_of_flatStep_error (limit : Nat) (opens : List OpenPrint) {error : LexError}
    (h : flatStep afterOperand here c rest = .error error) :
    step limit opens afterOperand here c rest = .error (.error error) := by
  unfold flatStep at h
  unfold step
  cases hread : Lexeme.read afterOperand c rest with
  | error cause =>
    rw [hread] at h
    cases h
    rfl
  | ok lexeme =>
    rw [hread] at h
    dsimp only at h ⊢
    by_cases hkind : lexeme.kind = .functionWord
    · rw [hkind] at h ⊢
      dsimp only at h ⊢
      cases hheader : Header.read (here.skip lexeme.span) with
      | error found =>
        rw [hheader] at h
        cases h
        rfl
      | ok read =>
        rw [hheader] at h
        cases h
    · split at h
      · contradiction
      · cases h

/-- What a step makes of a flat step: it goes on behind `print`, and else all it has to do is to
track the parentheses. -/
theorem step_of_flatStep (limit : Nat) (opens : List OpenPrint) {flat : Step}
    (hrest : here.rest = c :: rest) (h : flatStep afterOperand here c rest = .ok flat) :
    (∃ print, ReadsPrint here print flat ∧
      step limit opens afterOperand here c rest = printStep limit opens print flat.next) ∨
    (∀ token ∈ flat.tokens, token.kind ≠ .printWord) ∧
      step limit opens afterOperand here c rest = .ok { flat with
        opens := flat.tokens.foldl (fun opens token ↦ track opens token.kind) opens } := by
  unfold flatStep at h
  split at h
  · cases h
  · next lexeme hread =>
    dsimp only at h
    simp only [step, hread]
    split at h
    · next hkind =>
      split at h
      · cases h
      · next header next hheader =>
        cases h
        have hother : ∀ token ∈ lexeme.token here.pos :: header, token.kind ≠ .printWord ∧
            token.kind ≠ .leftParen ∧ token.kind ≠ .rightParen := by
          refine List.forall_mem_cons.mpr ⟨?_, fun token htoken ↦ ?_⟩
          · simp [Lexeme.token, hkind]
          · rcases Header.kinds_of_read hheader token htoken with h | h | h <;> simp [h]
        refine .inr ⟨fun token htoken ↦ (hother token htoken).1, ?_⟩
        rw [foldl_track_of_ne fun token htoken ↦ (hother token htoken).2]
        simp only [hkind, hheader]
    · next hfunction =>
      cases h
      by_cases hprint : lexeme.kind = .printWord
      · refine .inl ⟨lexeme.token here.pos, readsPrint_of_read hrest hread hprint, ?_⟩
        simp only [hprint]
        rfl
      · refine .inr ⟨List.forall_mem_singleton.mpr hprint, ?_⟩
        split
        · contradiction
        · contradiction
        · rfl

/-- Behind a print a parenthesis opens if and only if one can be read there. -/
theorem ReadsPrint.opensIn_iff {source : List Char} {place : Nat} {print : Token} {flat : Step}
    (h : ReadsPrint here print flat) (hat : here.At source place) (hrest : here.rest = c :: rest) :
    print.OpensIn source ↔ ∃ paren next, printParen flat.next = .ok (paren, next) := by
  rw [Token.opensIn_iff hat hrest h.pos h.piece, ← h.next]
  constructor
  · rintro ⟨blanks, behind, hbehind, hblanks⟩
    exact ⟨_, _, printParen_eq_ok_iff.mpr ⟨blanks, behind, hbehind, hblanks, rfl, rfl⟩⟩
  · rintro ⟨paren, next, hparen⟩
    obtain ⟨blanks, behind, hbehind, hblanks, -⟩ := printParen_eq_ok_iff.mp hparen
    exact ⟨blanks, behind, hbehind, hblanks⟩

/-! ### What the flat scan leaves open -/

/-- Whether the tokens close the prints that are open, and every print among them has its
parentheses. -/
structure Closes (source : List Char) (opens : List OpenPrint) (found : List Token) : Prop where
  unwinds : Unwinds (openParens opens) found
  enclosed : PrintsEnclosed found
  opensIn : ∀ print ∈ found, print.kind = .printWord → print.OpensIn source

variable {source : List Char} {more : List Token}

theorem closes_print_iff {print : Token} (pos : Pos) (hprint : print.kind = .printWord)
    (hparen : paren.kind = .leftParen) : Closes source opens (print :: paren :: more) ↔
      print.OpensIn source ∧ Closes source (⟨pos, 1⟩ :: opens) more := by
  have hclose : Unwinds (openParens (⟨pos, 1⟩ :: opens)) more ↔
      Enclosed (paren :: more) ∧ Unwinds (openParens opens) (paren :: more) := by
    rw [← Unwinds.succ_iff hparen]
    exact Iff.of_eq (congrArg (Unwinds · more) (Nat.add_comm 1 _))
  have hnotPrint : paren.kind ≠ .printWord := by simp [hparen]
  have hunwinds : Unwinds (openParens opens) (print :: paren :: more) ↔
      Unwinds (openParens opens) (paren :: more) :=
    Unwinds.cons_other (by simp [hprint]) (by simp [hprint])
  constructor
  · rintro ⟨h, henclosed, hopensIn⟩
    obtain ⟨hpair, henclosed⟩ := printsEnclosed_cons.mp henclosed
    obtain ⟨hopen, hopensIn⟩ := List.forall_mem_cons.mp hopensIn
    exact ⟨hopen hprint, hclose.mpr ⟨hpair hprint, hunwinds.mp h⟩,
      (printsEnclosed_cons.mp henclosed).2, (List.forall_mem_cons.mp hopensIn).2⟩
  · rintro ⟨hopen, h, henclosed, hopensIn⟩
    obtain ⟨hpair, h⟩ := hclose.mp h
    refine ⟨hunwinds.mpr h, ?_, ?_⟩
    · exact printsEnclosed_cons.mpr ⟨fun _ ↦ hpair,
        printsEnclosed_cons.mpr ⟨fun h ↦ absurd h hnotPrint, henclosed⟩⟩
    · exact List.forall_mem_cons.mpr ⟨fun _ ↦ hopen,
        List.forall_mem_cons.mpr ⟨fun h ↦ absurd h hnotPrint, hopensIn⟩⟩

/-- Without a print among them, tokens do with the open prints what the scan tracks. -/
theorem closes_append_iff {first : List Token} (hopens : AllOpen opens)
    (hfirst : ∀ token ∈ first, token.kind ≠ .printWord) : Closes source opens (first ++ more) ↔
      Closes source (first.foldl (fun opens token ↦ track opens token.kind) opens) more := by
  constructor
  · rintro ⟨h, henclosed, hopensIn⟩
    exact ⟨(unwinds_foldl hopens first more).mpr h, (printsEnclosed_append hfirst).mp henclosed,
      (List.forall_mem_append.mp hopensIn).2⟩
  · rintro ⟨h, henclosed, hopensIn⟩
    exact ⟨(unwinds_foldl hopens first more).mp h, (printsEnclosed_append hfirst).mpr henclosed,
      List.forall_mem_append.mpr ⟨fun token htoken h ↦ absurd h (hfirst token htoken), hopensIn⟩⟩

/-- The end mark closes no print. -/
theorem closes_eof_iff {pos : Pos} (hopens : AllOpen opens) :
    Closes source opens [⟨.eof, "", pos⟩] ↔ opens = [] := by
  constructor
  · intro h
    exact hopens.eq_nil ((Unwinds.cons_other (by simp) (by simp)).mp h.unwinds).eq_zero_of_nil
  · rintro rfl
    exact ⟨trivial, printsEnclosed_cons.mpr ⟨nofun, printsEnclosed_nil⟩,
      List.forall_mem_singleton.mpr nofun⟩

/-! ### Both scans -/

/-- What a scan finds the flat scan finds, and it closes every print. -/
theorem flat_of_tokens {found : List Token}
    (h : tokens limit opens afterOperand here = .ok found) (hopens : AllOpen opens)
    (hat : ∃ place, here.At source place) :
    flatTokens afterOperand here = .ok found ∧ Closes source opens found := by
  fun_induction tokens limit opens afterOperand here generalizing found with
  | case1 afterOperand here start =>
    rename_i hrest
    cases h
    exact ⟨flatTokens_nil hrest, (closes_eof_iff hopens).mpr rfl⟩
  | case2 => cases h
  | case3 => cases h
  | case4 opens afterOperand here start c rest hrest step hstep =>
    rename_i ih
    obtain ⟨place, hplace⟩ := hat
    have hstart : start.At source _ := hplace.skip (Cursor.layout_isPrefix false _)
    have hnext := at_step ⟨_, hstart⟩ hrest hstep
    obtain ⟨more, hmore, rfl⟩ := exists_of_map_eq_ok h
    obtain ⟨flat, hflat⟩ : ∃ flat, flatStep afterOperand start c rest = .ok flat := by
      cases hflat : flatStep afterOperand start c rest with
      | error error => cases hstep.symm.trans (step_of_flatStep_error limit opens hflat)
      | ok flat => exact ⟨flat, rfl⟩
    rw [flatTokens_cons hrest, hflat]
    change (flatTokens flat.afterOperand flat.next).map (flat.tokens ++ ·) = _ ∧ _
    rcases step_of_flatStep limit opens hrest hflat with
      ⟨print, hprint, hsame⟩ | ⟨hnone, hsame⟩
    · obtain ⟨-, paren, next, hparen, rfl⟩ := printStep_eq_ok_iff.mp (hsame.symm.trans hstep)
      have hopensIn := (hprint.opensIn_iff hstart hrest).mpr ⟨paren, next, hparen⟩
      obtain ⟨hmore, hcloses⟩ := ih hmore (List.forall_mem_cons.mpr ⟨Nat.one_pos, hopens⟩) hnext
      refine ⟨?_, (closes_print_iff paren.pos hprint.kind (kind_of_printParen hparen)).mpr
        ⟨hopensIn, hcloses⟩⟩
      rw [flatTokens_paren _ hparen, hmore, hprint.tokens]
      rfl
    · cases hstep.symm.trans hsame
      obtain ⟨hmore, hcloses⟩ := ih hmore (hopens.foldl flat.tokens) hnext
      refine ⟨?_, (closes_append_iff hopens hnone).mpr hcloses⟩
      rw [hmore]
      rfl

/-- What the flat scan finds a scan finds, if it closes every print and the limit allows that many
open prints. The induction is on the length of the text, as behind a print the flat scan takes a
step more. -/
theorem tokens_of_flat {found : List Token}
    (h : flatTokens afterOperand here = .ok found) (hopens : AllOpen opens)
    (hat : ∃ place, here.At source place) (hcloses : Closes source opens found)
    (hlimit : opens.length + found.length ≤ limit) :
    tokens limit opens afterOperand here = .ok found := by
  induction hlength : here.rest.length using Nat.strong_induction_on
    generalizing opens afterOperand here found with
  | _ length ih =>
  subst hlength
  cases hrest : here.skipLayout.rest with
  | nil =>
    rw [flatTokens_nil hrest] at h
    cases h
    rw [tokens_eq, hrest, (closes_eof_iff hopens).mp hcloses]
  | cons c rest =>
    obtain ⟨place, hplace⟩ := hat
    have hstart : here.skipLayout.At source _ := hplace.skip (Cursor.layout_isPrefix false _)
    have hshorter {found : Step}
        (hstep : step limit opens afterOperand here.skipLayout c rest = .ok found) :
        found.next.rest.length < here.rest.length :=
      Nat.lt_of_lt_of_le (length_step hrest hstep) (Cursor.length_skipLayout here)
    rw [flatTokens_cons hrest] at h
    cases hflat : flatStep afterOperand here.skipLayout c rest with
    | error error =>
      rw [hflat] at h
      cases h
    | ok flat =>
      rw [hflat] at h
      obtain ⟨more, hmore, rfl⟩ := exists_of_map_eq_ok h
      rw [tokens_cons hrest]
      rcases step_of_flatStep limit opens hrest hflat with
        ⟨print, hprint, hsame⟩ | ⟨hnone, hsame⟩
      · have hopensIn := hcloses.opensIn print (by simp [hprint.tokens]) hprint.kind
        obtain ⟨paren, next, hparen⟩ := (hprint.opensIn_iff hstart hrest).mp hopensIn
        rw [flatTokens_paren _ hparen] at hmore
        obtain ⟨others, hothers, rfl⟩ := exists_of_map_eq_ok hmore
        rw [hprint.tokens, List.singleton_append, List.singleton_append] at hcloses hlimit ⊢
        rw [List.length_cons, List.length_cons] at hlimit
        have hcloses := ((closes_print_iff paren.pos hprint.kind
          (kind_of_printParen hparen)).mp hcloses).2
        have hstep := hsame.trans (printStep_eq_ok_iff.mpr ⟨by omega, paren, next, hparen, rfl⟩)
        have hmore := ih _ (hshorter hstep) hothers
          (List.forall_mem_cons.mpr ⟨Nat.one_pos, hopens⟩) (at_step ⟨_, hstart⟩ hrest hstep)
          hcloses (by rw [List.length_cons]; omega) rfl
        rw [hstep, Except.bind, hmore]
        rfl
      · have hlength := length_foldl_le opens flat.tokens
        rw [List.length_append] at hlimit
        have hnext := at_step ⟨_, hstart⟩ hrest hsame
        have hmore := ih _ (hshorter hsame) hmore (hopens.foldl flat.tokens) hnext
          ((closes_append_iff hopens hnone).mp hcloses) (by omega) rfl
        rw [hsame, Except.bind, hmore]
        rfl

end Scan

/-- A source has the tokens of the flat scan, and among them every `print` is directly followed by
a parenthesis that opens and has a partner. Where that is so, and only blanks stand between, the
flat scan has the tokens of the source, and none but the limit can keep them from being found. -/
theorem tokenize_transparent (source : String) (found : List Token) :
    (∀ limit, tokenize limit source = .ok found →
      flatTokenize source = .ok found ∧ PrintsEnclosed found ∧
        ∀ print ∈ found, print.kind = .printWord → print.OpensIn source.toList) ∧
    (flatTokenize source = .ok found → PrintsEnclosed found →
      (∀ print ∈ found, print.kind = .printWord → print.OpensIn source.toList) →
        (∀ limit, tokenize limit source = .error .tooDeep ∨ tokenize limit source = .ok found) ∧
          ∀ limit, found.length ≤ limit → tokenize limit source = .ok found) := by
  have hat : ∃ place, (Cursor.ofText source).At source.toList place := ⟨0, Cursor.at_ofText source⟩
  have hopens : Scan.AllOpen [] := List.forall_mem_nil _
  constructor
  · intro limit h
    obtain ⟨hflat, hcloses⟩ := Scan.flat_of_tokens h hopens hat
    exact ⟨hflat, hcloses.enclosed, hcloses.opensIn⟩
  · intro hflat henclosed hopensIn
    have hfound (limit : Nat) (hlimit : found.length ≤ limit) : tokenize limit source = .ok found :=
      Scan.tokens_of_flat hflat hopens hat ⟨trivial, henclosed, hopensIn⟩ (by simpa using hlimit)
    refine ⟨fun limit ↦ ?_, hfound⟩
    have hunder := tokenize_under (Nat.le_max_left limit found.length) source
    rwa [hfound _ (Nat.le_max_right limit found.length)] at hunder

/-- A print in a print, with a parenthesis in a string and one of a header that do not count. -/
theorem tokenize_transparent_nested : ∃ found,
    (tokenize 2 "print(\")\", print ((1)) function f() =>)").toOption = some found ∧
      found.length = 15 ∧
      flatTokenize "print(\")\", print ((1)) function f() =>)" = .ok found ∧
      tokenize 15 "print(\")\", print ((1)) function f() =>)" = .ok found := by
  have hfound : (tokenize 2 "print(\")\", print ((1)) function f() =>)").toOption.any
      (·.length = 15) = true := by
    decide +kernel
  cases h : tokenize 2 "print(\")\", print ((1)) function f() =>)" with
  | error fault =>
    rw [h] at hfound
    cases hfound
  | ok found =>
    rw [h] at hfound
    have hlength : found.length = 15 := of_decide_eq_true hfound
    obtain ⟨hflat, henclosed, hopensIn⟩ := (tokenize_transparent _ found).1 2 h
    exact ⟨found, rfl, hlength, hflat,
      ((tokenize_transparent _ found).2 hflat henclosed hopensIn).2 15 hlength.le⟩

end Reckoner
