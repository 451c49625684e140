import Reckoner.Proofs.Token.Characters
import Reckoner.Proofs.Token.Exchange
import Reckoner.Proofs.Token.WellWritten

/-!
Progress of the scan. Read character by character, every token takes at least one character and no
character is taken where none is left. A print is read by scanning on inside it, with a count of
its parentheses; the scan that keeps the open prints on a stack finds the same, so that all texts
have the same tokens either way, or the same error. Prints are nested no deeper than the text is
long.
-/

set_option autoImplicit false
set_option relaxedAutoImplicit false

namespace Reckoner

open Text

namespace ByCharacter

/-- How a token changes the number of open parentheses. -/
def opening : TokenKind → Int
  | .leftParen => 1
  | .rightParen => -1
  | _ => 0

/-- How many more parentheses are open behind the tokens than in front of them. -/
def change (tokens : List Token) : Int :=
  (tokens.map (opening ·.kind)).sum

/-- Reads on until as many parentheses have been closed as were open. -/
def closePrintWithin (lexNext : Scanner Bool) (pos : Pos) : Nat → Int → Scanner Unit
  | 0, _ => throw .endless
  | rounds + 1, depth => do
    if depth = 0 then return ()
    else
      let start := (← get).tokens.length
      if ← lexNext then
        closePrintWithin lexNext pos rounds (depth + change ((← get).tokens.drop start))
      else
        fail .unclosedPrint pos

/-- Reads a token and what it brings with it, given a reader for what stands behind `print`. At the
end of the text it says that there is none. -/
def lexItem (lexPrintArgs : Scanner Unit) : Scanner Bool := do
  skipIgnored
  if (← peek?).isNone then return false
  else
    let token ← lexAny
    push token
    match token.kind with
    | .functionWord => lexHeader
    | .printWord => lexPrintArgs
    | _ => pure ()
    return true

/-- Reads a token and what it brings with it, with at most `fuel` prints inside each other. -/
def lexNext : Nat → Scanner Bool
  | 0 => lexItem do
    let _ ← openPrint
    throw (.fault .tooDeep)
  | fuel + 1 => lexItem do
    let pos ← openPrint
    closePrintWithin (lexNext fuel) pos (← rounds) 1

def lexAllWithin (fuel : Nat) : Nat → Scanner Unit
  | 0 => throw .endless
  | rounds + 1 => do
    if ← lexNext fuel then lexAllWithin fuel rounds else return ()

/-- Reads all tokens of the text at the cursor and marks the end. -/
def lexAll (fuel : Nat) : Scanner Unit := do
  lexAllWithin fuel (← rounds)
  push ⟨.eof, "", ← position⟩

/-- The tokens of a source text, read character by character. -/
def lex (fuel : Nat) (source : String) : Except Halt (List Token) :=
  ((lexAll fuel).run ⟨.ofText source, []⟩).map (·.2.tokens)

/-! ### Open prints -/

section Open

open Scan (OpenPrint AllOpen track)

variable {opens outer : List OpenPrint} {pos : Pos}

theorem opening_of_ne {kind : TokenKind} (hleft : kind ≠ .leftParen) (hright : kind ≠ .rightParen) :
    opening kind = 0 := by
  cases kind <;> first | rfl | contradiction

theorem neg_one_le_opening (kind : TokenKind) : -1 ≤ opening kind := by
  cases kind <;> decide

theorem change_nil : change [] = 0 := rfl

theorem change_cons (token : Token) (tokens : List Token) :
    change (token :: tokens) = opening token.kind + change tokens := rfl

theorem change_append (first second : List Token) :
    change (first ++ second) = change first + change second := by
  simp [change]

/-- Tokens that are no parentheses change nothing. -/
theorem change_eq_zero {tokens : List Token}
    (h : ∀ token ∈ tokens, token.kind ≠ .leftParen ∧ token.kind ≠ .rightParen) :
    change tokens = 0 := by
  induction tokens with
  | nil => rfl
  | cons token tokens ih =>
    obtain ⟨⟨hleft, hright⟩, hmore⟩ := List.forall_mem_cons.mp h
    rw [change_cons, opening_of_ne hleft hright, ih hmore, Int.add_zero]

/-- A print with the given number of open parentheses in front of others. -/
def reopen (pos : Pos) (depth : Nat) (outer : List OpenPrint) : List OpenPrint :=
  if depth = 0 then outer else ⟨pos, depth⟩ :: outer

/-- The open prints when the number of open parentheses has changed. -/
def adjust (opens : List OpenPrint) (change : Int) : List OpenPrint :=
  match opens with
  | [] => []
  | innermost :: outer => reopen innermost.pos (innermost.depth + change).toNat outer

theorem adjust_zero (h : AllOpen opens) : adjust opens 0 = opens := by
  cases opens with
  | nil => rfl
  | cons innermost outer =>
    have hdepth := h innermost List.mem_cons_self
    rw [adjust, Int.add_zero, Int.toNat_natCast, reopen, if_neg hdepth.ne']

/-- A token by itself changes the open prints as it does in a scan. -/
theorem track_eq_adjust (h : AllOpen opens) (kind : TokenKind) :
    track opens kind = adjust opens (opening kind) := by
  by_cases hleft : kind = .leftParen
  · subst hleft
    cases opens with
    | nil => rfl
    | cons innermost outer => rfl
  by_cases hright : kind = .rightParen
  · subst hright
    cases opens with
    | nil => rfl
    | cons innermost outer =>
      have hdepth : (innermost.depth + opening .rightParen).toNat = innermost.depth - 1 := by
        rw [opening]
        omega
      rw [adjust, hdepth, reopen]
      simp only [track, Nat.sub_eq_zero_iff_le]
  · rw [Scan.track_of_ne hleft hright, opening_of_ne hleft hright, adjust_zero h]

end Open

/-! ### Reading on -/

section Reading

open Scan (OpenPrint AllOpen)

variable {limit : Nat} {opens opens' opens'' outer : List OpenPrint} {state middle after : State}
  {piece piece' : List Char} {new new' : List Token} {c : Char} {rest : List Char}
  {found : Scan.Step} {lexeme : Lexeme}

/-- What the scan that keeps the open prints finds from a state on. -/
def scan (limit : Nat) (opens : List OpenPrint) (state : State) :
    Except (Fault LexError) (List Token) :=
  Scan.tokens limit opens (endsOperand state.tokens) state.here

/-- Between two states a piece of text has been read as some tokens, and the scan that keeps the
open prints finds them too. -/
structure Reads (limit : Nat) (opens opens' : List OpenPrint) (state after : State)
    (piece : List Char) (new : List Token) : Prop where
  passes : state.here.Passes piece after.here
  tokens : after.tokens = state.tokens ++ new
  scan_eq : scan limit opens state = (scan limit opens' after).map (new ++ ·)

theorem Reads.refl (limit : Nat) (opens : List OpenPrint) (state : State) :
    Reads limit opens opens state state [] [] where
  passes := .refl _
  tokens := (List.append_nil _).symm
  scan_eq := by cases scan limit opens state <;> rfl

theorem Reads.trans (h : Reads limit opens opens' state middle piece new)
    (h' : Reads limit opens' opens'' middle after piece' new') :
    Reads limit opens opens'' state after (piece ++ piece') (new ++ new') where
  passes := h.passes.trans h'.passes
  tokens := by rw [h'.tokens, h.tokens, List.append_assoc]
  scan_eq := by
    rw [h.scan_eq, h'.scan_eq]
    cases scan limit opens'' after with
    | error fault => rfl
    | ok found => simp [Except.map]

theorem Reads.length_lt (h : Reads limit opens opens' state after piece new) (hpiece : piece ≠ []) :
    after.here.rest.length < state.here.rest.length := by
  have hlength := congrArg List.length h.passes.rest_eq
  have hpos := List.length_pos_iff.mpr hpiece
  rw [List.length_append] at hlength
  omega

/-- An error behind what has been read is the error of the whole. -/
theorem Reads.scan_eq_error {fault : Fault LexError}
    (h : Reads limit opens opens' state after piece new)
    (hfault : scan limit opens' after = .error fault) : scan limit opens state = .error fault := by
  rw [h.scan_eq, hfault]
  rfl

/-- What a reader of items does: it reads a piece of text that is not empty as tokens, or it is at
the end, or it stops with the error that the scan stops with. -/
def ReadsItem (limit : Nat) (opens : List OpenPrint) (state : State) :
    Except Halt (Bool × State) → Prop
  | .ok (true, after) => ∃ piece new, piece ≠ [] ∧ new ≠ [] ∧ -1 ≤ change new ∧
      Reads limit opens (adjust opens (change new)) state after piece new
  | .ok (false, after) => state.here.skipLayout.rest = [] ∧
      after = ⟨state.here.skipLayout, state.tokens⟩
  | .error halt => ∃ fault, halt = .fault fault ∧ scan limit opens state = .error fault

/-- What the reader of a print does behind its opening parenthesis: it closes what is open, or it
stops with the error that the scan stops with. -/
def Closes (limit : Nat) (opens outer : List OpenPrint) (depth : Int) (state : State) :
    Except Halt (Unit × State) → Prop
  | .ok ((), after) => ∃ piece new, change new = -depth ∧
      Reads limit opens outer state after piece new
  | .error halt => ∃ fault, halt = .fault fault ∧ scan limit opens state = .error fault

/-- A scan in an open print stops with an error at the end of the text. -/
theorem scan_unclosed {innermost : OpenPrint} (hend : state.here.skipLayout.rest = []) :
    scan limit (innermost :: outer) state = .error (.error ⟨.unclosedPrint, innermost.pos⟩) := by
  rw [scan, Scan.tokens_eq, hend]

theorem closes_closePrintWithin {lexNext : Scanner Bool} (houter : AllOpen outer)
    (hnext : ∀ opens state, AllOpen opens → opens.length = outer.length + 1 →
      ReadsItem limit opens state (lexNext.run state))
    (pos : Pos) {depth rounds : Nat} (hrounds : state.here.rest.length < rounds) :
    Closes limit (reopen pos depth outer) outer depth state
      ((closePrintWithin lexNext pos rounds depth).run state) := by
  induction rounds generalizing state depth with
  | zero => exact absurd hrounds (Nat.not_lt_zero _)
  | succ rounds ih =>
    rw [closePrintWithin]
    by_cases hdepth : depth = 0
    · subst hdepth
      exact ⟨[], [], rfl, .refl limit outer state⟩
    have hopen : AllOpen (⟨pos, depth⟩ :: outer) :=
      List.forall_mem_cons.mpr ⟨Nat.pos_of_ne_zero hdepth, houter⟩
    have hread := hnext _ state hopen rfl
    rw [if_neg (Int.natCast_ne_zero.mpr hdepth), run_bind_of_ok (run_get _), reopen, if_neg hdepth]
    cases hrun : lexNext.run state with
    | error halt =>
      rw [hrun] at hread
      rw [run_bind_of_error hrun]
      exact hread
    | ok result =>
      obtain ⟨more, after⟩ := result
      rw [hrun] at hread
      rw [run_bind_of_ok hrun]
      cases more with
      | false => exact ⟨_, rfl, scan_unclosed hread.1⟩
      | true =>
        obtain ⟨piece, new, hpiece, -, hchange, hreads⟩ := hread
        have hshort := Nat.lt_of_lt_of_le (hreads.length_lt hpiece) (Nat.le_of_lt_succ hrounds)
        have hdrop : after.tokens.drop state.tokens.length = new := by
          rw [hreads.tokens, List.drop_left]
        -- An item closes one parenthesis at most, so the count stops at zero.
        obtain ⟨left, hleft⟩ : ∃ left : Nat, (depth + change new : Int) = left :=
          Int.eq_ofNat_of_zero_le (by omega)
        have hadjust : adjust (⟨pos, depth⟩ :: outer) (change new) = reopen pos left outer := by
          rw [adjust, hleft, Int.toNat_natCast]
        rw [hadjust] at hreads
        rw [if_pos rfl, run_bind_of_ok (run_get _), hdrop, hleft]
        have hrest : Closes limit (reopen pos left outer) outer left after
            ((closePrintWithin lexNext pos rounds left).run after) := ih hshort
        cases hclose : (closePrintWithin lexNext pos rounds left).run after with
        | error halt =>
          rw [hclose] at hrest
          obtain ⟨fault, rfl, hfault⟩ := hrest
          exact ⟨fault, rfl, hreads.scan_eq_error hfault⟩
        | ok closed =>
          rw [hclose] at hrest
          obtain ⟨more, found, hfound, hmore⟩ := hrest
          refine ⟨piece ++ more, new ++ found, ?_, hreads.trans hmore⟩
          rw [change_append]
          omega

/-! ### One token and what it brings with it -/

theorem endsOperand_append_singleton (tokens : List Token) (token : Token) :
    endsOperand (tokens ++ [token]) = token.kind.endsOperand := by
  simp [endsOperand]

/-- Whether an operand has ended is told by the last token of a step. -/
theorem afterOperand_step {afterOperand : Bool} {here : Cursor}
    (h : Scan.step limit opens afterOperand here c rest = .ok found) (tokens : List Token) :
    found.afterOperand = endsOperand (tokens ++ found.tokens) := by
  obtain ⟨lexeme, -, hfound⟩ := Scan.step_eq_ok_iff.mp h
  rcases hfound with ⟨-, -, rfl⟩ | ⟨-, header, next, hheader, rfl⟩ |
    ⟨-, -, paren, next, hparen, rfl⟩
  · exact (endsOperand_append_singleton tokens (lexeme.token here.pos)).symm
  · obtain ⟨_, _, _, _, arrow, _, _, harrow, rfl⟩ := Header.exists_of_read_eq_ok hheader
    have hsplit : ∀ name parameters, tokens ++ lexeme.token here.pos :: name ::
        (parameters ++ [arrow]) = (tokens ++ lexeme.token here.pos :: name :: parameters) ++
          [arrow] := by
      simp
    dsimp only
    rw [hsplit, endsOperand_append_singleton, Header.kind_of_arrow harrow]
    rfl
  · dsimp only
    rw [← List.singleton_append, ← List.append_assoc, endsOperand_append_singleton,
      Scan.kind_of_printParen hparen]
    rfl

/-- What a step of the scan reads at once. -/
theorem reads_step (hrest : state.here.skipLayout.rest = c :: rest)
    (h : Scan.step limit opens (endsOperand state.tokens) state.here.skipLayout c rest =
      .ok found) : ∃ piece, piece ≠ [] ∧
    Reads limit opens found.opens state ⟨found.next, state.tokens ++ found.tokens⟩ piece
      found.tokens := by
  obtain ⟨more, hpasses, -⟩ := Scan.step_replaces hrest h
  refine ⟨_, List.append_ne_nil_of_right_ne_nil _ (List.cons_ne_nil c more),
    state.here.passes_skipLayout.trans hpasses, rfl, ?_⟩
  rw [scan, Scan.tokens_eq, hrest]
  dsimp only
  rw [h, scan, ← afterOperand_step h]

/-- A step that fails ends the scan. -/
theorem scan_eq_error_of_step {fault : Fault LexError}
    (hrest : state.here.skipLayout.rest = c :: rest)
    (h : Scan.step limit opens (endsOperand state.tokens) state.here.skipLayout c rest =
      .error fault) : scan limit opens state = .error fault := by
  rw [scan, Scan.tokens_eq, hrest]
  dsimp only
  rw [h]

/-- What a reader does behind the word `print`, in front of which some prints are open. -/
def ReadsArguments (limit : Nat) (opens : List OpenPrint) (state : State)
    (result : Except Halt (Unit × State)) : Prop :=
  match Scan.printParen state.here with
  | .error error => result = .error (.fault (.error error))
  | .ok (paren, behind) =>
    if limit ≤ opens.length then result = .error (.fault .tooDeep)
    else Closes limit (⟨paren.pos, 1⟩ :: opens) opens 1 ⟨behind, state.tokens ++ [paren]⟩ result

/-- The word `function` is read with its header. -/
theorem readsItem_header (hopens : AllOpen opens) (hrest : state.here.skipLayout.rest = c :: rest)
    (hread : Lexeme.read (endsOperand state.tokens) c rest = .ok lexeme)
    (hkind : lexeme.kind = .functionWord) :
    ReadsItem limit opens state ((do lexHeader; return true : Scanner Bool).run
      ⟨state.here.skipLayout.skip lexeme.span,
        state.tokens ++ [lexeme.token state.here.skipLayout.pos]⟩) := by
  have hheader : lexHeader.run ⟨state.here.skipLayout.skip lexeme.span,
      state.tokens ++ [lexeme.token state.here.skipLayout.pos]⟩ = _ := run_lexHeader
  cases hfound : Header.read (state.here.skipLayout.skip lexeme.span) with
  | error error =>
    rw [hfound] at hheader
    rw [run_bind_of_error hheader]
    refine ⟨_, rfl, scan_eq_error_of_step hrest ?_⟩
    simp only [Scan.step, hread, hkind, hfound]
  | ok found =>
    obtain ⟨header, next⟩ := found
    rw [hfound] at hheader
    obtain ⟨piece, hpiece, hreads⟩ := reads_step hrest (Scan.step_eq_ok_iff.mpr
      ⟨lexeme, hread, .inr (.inl ⟨hkind, header, next, hfound, rfl⟩)⟩)
    have hchange : change (lexeme.token state.here.skipLayout.pos :: header) = 0 := by
      refine change_eq_zero (List.forall_mem_cons.mpr ⟨?_, fun token htoken ↦ ?_⟩)
      · have hword : (lexeme.token state.here.skipLayout.pos).kind = .functionWord := hkind
        rw [hword]
        decide
      · rcases Header.kinds_of_read hfound token htoken with hkind | hkind | hkind <;>
          rw [hkind] <;> decide
    rw [run_bind_of_ok hheader, run_pure, List.append_assoc, List.singleton_append]
    refine ⟨piece, lexeme.token state.here.skipLayout.pos :: header, hpiece, List.cons_ne_nil _ _,
      by omega, ?_⟩
    rw [hchange, adjust_zero hopens]
    exact hreads

/-- The word `print` is read with all that is enclosed behind it. -/
theorem readsItem_print {lexPrintArgs : Scanner Unit} (hopens : AllOpen opens)
    (hrest : state.here.skipLayout.rest = c :: rest)
    (hread : Lexeme.read (endsOperand state.tokens) c rest = .ok lexeme)
    (hkind : lexeme.kind = .printWord)
    (hprint : ∀ state, ReadsArguments limit opens state (lexPrintArgs.run state)) :
    ReadsItem limit opens state ((do lexPrintArgs; return true : Scanner Bool).run
      ⟨state.here.skipLayout.skip lexeme.span,
        state.tokens ++ [lexeme.token state.here.skipLayout.pos]⟩) := by
  have harguments := hprint ⟨state.here.skipLayout.skip lexeme.span,
    state.tokens ++ [lexeme.token state.here.skipLayout.pos]⟩
  unfold ReadsArguments at harguments
  cases hparen : Scan.printParen (state.here.skipLayout.skip lexeme.span) with
  | error error =>
    simp only [hparen] at harguments
    rw [run_bind_of_error harguments]
    refine ⟨_, rfl, scan_eq_error_of_step hrest ?_⟩
    simp only [Scan.step, hread, hkind, hparen]
  | ok found =>
    obtain ⟨paren, next⟩ := found
    simp only [hparen] at harguments
    by_cases hlimit : limit ≤ opens.length
    · rw [if_pos hlimit] at harguments
      rw [run_bind_of_error harguments]
      refine ⟨_, rfl, scan_eq_error_of_step hrest ?_⟩
      simp only [Scan.step, hread, hkind, hparen, if_pos hlimit]
    · rw [if_neg hlimit, List.append_assoc, List.singleton_append] at harguments
      obtain ⟨piece, hpiece, hreads⟩ := reads_step hrest (Scan.step_eq_ok_iff.mpr
        ⟨lexeme, hread, .inr (.inr ⟨hkind, Nat.lt_of_not_le hlimit, paren, next, hparen, rfl⟩)⟩)
      cases hclose : lexPrintArgs.run ⟨state.here.skipLayout.skip lexeme.span,
          state.tokens ++ [lexeme.token state.here.skipLayout.pos]⟩ with
      | error halt =>
        rw [hclose] at harguments
        obtain ⟨fault, rfl, hfault⟩ := harguments
        rw [run_bind_of_error hclose]
        exact ⟨fault, rfl, hreads.scan_eq_error hfault⟩
      | ok closed =>
        obtain ⟨⟨⟩, after⟩ := closed
        rw [hclose] at harguments
        obtain ⟨more, new, hnew, hmore⟩ := harguments
        have hchange : change ([lexeme.token state.here.skipLayout.pos, paren] ++ new) = 0 := by
          have hparenKind := Scan.kind_of_printParen hparen
          simp only [change_append, change_cons, change_nil, Lexeme.token, hkind, hparenKind,
            opening, hnew]
          omega
        rw [run_bind_of_ok hclose, run_pure]
        refine ⟨piece ++ more, [lexeme.token state.here.skipLayout.pos, paren] ++ new,
          List.append_ne_nil_of_left_ne_nil hpiece _, List.cons_ne_nil _ _, by omega, ?_⟩
        rw [hchange, adjust_zero hopens]
        exact hreads.trans hmore

/-- Any other token is read by itself. -/
theorem readsItem_lexeme (hopens : AllOpen opens) (hrest : state.here.skipLayout.rest = c :: rest)
    (hread : Lexeme.read (endsOperand state.tokens) c rest = .ok lexeme)
    (hfunction : lexeme.kind ≠ .functionWord) (hprint : lexeme.kind ≠ .printWord) :
    ReadsItem limit opens state ((pure true : Scanner Bool).run
      ⟨state.here.skipLayout.skip lexeme.span,
        state.tokens ++ [lexeme.token state.here.skipLayout.pos]⟩) := by
  have hstep : Scan.step limit opens (endsOperand state.tokens) state.here.skipLayout c rest = _ :=
    Scan.step_eq_ok_iff.mpr ⟨lexeme, hread, .inl ⟨hfunction, hprint, rfl⟩⟩
  obtain ⟨piece, hpiece, hreads⟩ := reads_step hrest hstep
  have hchange : change [lexeme.token state.here.skipLayout.pos] = opening lexeme.kind := by
    rw [change_cons, change_nil, Int.add_zero]
    rfl
  refine ⟨piece, [lexeme.token state.here.skipLayout.pos], hpiece, List.cons_ne_nil _ _, ?_, ?_⟩
  · rw [hchange]
    exact neg_one_le_opening _
  · rw [hchange, ← track_eq_adjust hopens]
    exact hreads

theorem readsItem_lexItem {lexPrintArgs : Scanner Unit} (hopens : AllOpen opens)
    (hprint : ∀ state, ReadsArguments limit opens state (lexPrintArgs.run state)) (state : State) :
    ReadsItem limit opens state ((lexItem lexPrintArgs).run state) := by
  have hskip : skipIgnored.run state = .ok ((), ⟨state.here.skipLayout, state.tokens⟩) :=
    run_skipIgnored
  rw [lexItem, run_bind_of_ok hskip, run_bind_of_ok (run_peek? _)]
  cases hrest : state.here.skipLayout.rest with
  | nil => exact ⟨hrest, rfl⟩
  | cons c rest =>
    have hany : lexAny.run ⟨state.here.skipLayout, state.tokens⟩ = _ := run_lexAny hrest
    simp only [List.head?_cons, Option.isNone_some, Bool.false_eq_true, if_false]
    cases hread : Lexeme.read (endsOperand state.tokens) c rest with
    | error cause =>
      rw [hread] at hany
      rw [run_bind_of_error hany]
      refine ⟨_, rfl, scan_eq_error_of_step hrest ?_⟩
      rw [Scan.step, hread]
    | ok lexeme =>
      rw [hread] at hany
      rw [run_bind_of_ok hany, run_bind_of_ok (run_push _ _)]
      split
      · next hkind => exact readsItem_header hopens hrest hread hkind
      · next hkind => exact readsItem_print hopens hrest hread hkind hprint
      · next hfunction hother => exact readsItem_lexeme hopens hrest hread hfunction hother

/-- At the limit a print stops behind its opening parenthesis. -/
theorem readsArguments_zero (hlimit : limit ≤ opens.length) (state : State) :
    ReadsArguments limit opens state
      ((do let _ ← openPrint; throw (.fault .tooDeep) : Scanner Unit).run state) := by
  have hopening : openPrint.run state = _ := run_openPrint
  unfold ReadsArguments
  cases hparen : Scan.printParen state.here with
  | error error =>
    rw [hparen] at hopening
    exact run_bind_of_error hopening _
  | ok found =>
    rw [hparen] at hopening
    dsimp only
    rw [if_pos hlimit, run_bind_of_ok hopening]
    rfl

/-- Below the limit a print is read up to its end. -/
theorem readsArguments_succ {lexNext : Scanner Bool} (hopens : AllOpen opens)
    (hlimit : opens.length < limit)
    (hnext : ∀ opens' state, AllOpen opens' → opens'.length = opens.length + 1 →
      ReadsItem limit opens' state (lexNext.run state)) (state : State) :
    ReadsArguments limit opens state
      ((do let pos ← openPrint; closePrintWithin lexNext pos (← rounds) 1 : Scanner Unit).run
        state) := by
  have hopening : openPrint.run state = _ := run_openPrint
  unfold ReadsArguments
  cases hparen : Scan.printParen state.here with
  | error error =>
    rw [hparen] at hopening
    exact run_bind_of_error hopening _
  | ok found =>
    obtain ⟨paren, behind⟩ := found
    rw [hparen] at hopening
    dsimp only
    rw [if_neg (Nat.not_le.mpr hlimit), run_bind_of_ok hopening, run_bind_of_ok (run_rounds _)]
    have hclose : Closes limit (reopen paren.pos 1 opens) opens (1 : Nat)
        ⟨behind, state.tokens ++ [paren]⟩ _ :=
      closes_closePrintWithin hopens hnext paren.pos (Nat.lt_succ_self behind.rest.length)
    exact hclose

/-- One item more than the scan with open prints has behind it is read, with as much fuel as prints
may still be opened. -/
theorem readsItem_lexNext {fuel : Nat} (hopens : AllOpen opens)
    (hlimit : opens.length + fuel = limit) (state : State) :
    ReadsItem limit opens state ((lexNext fuel).run state) := by
  induction fuel generalizing opens state with
  | zero =>
    exact readsItem_lexItem hopens (readsArguments_zero (Nat.le_of_eq hlimit.symm)) state
  | succ fuel ih =>
    refine readsItem_lexItem hopens
      (readsArguments_succ hopens (by omega) fun opens' state hopens' hlength ↦ ?_) state
    exact ih hopens' (by omega) state

/-! ### All tokens -/

/-- What a reader of a whole text does: it finds the tokens that the scan finds up to the mark of
the end, or it stops with the error that the scan stops with. -/
def ReadsAll (limit : Nat) (state : State) : Except Halt (Unit × State) → Prop
  | .ok ((), after) => ∃ new, after.tokens = state.tokens ++ new ∧
      scan limit [] state = .ok (new ++ [⟨.eof, "", after.here.pos⟩])
  | .error halt => ∃ fault, halt = .fault fault ∧ scan limit [] state = .error fault

theorem readsAll_lexAllWithin {fuel rounds : Nat} (hrounds : state.here.rest.length < rounds) :
    ReadsAll fuel state ((lexAllWithin fuel rounds).run state) := by
  induction rounds generalizing state with
  | zero => exact absurd hrounds (Nat.not_lt_zero _)
  | succ rounds ih =>
    have hopens : AllOpen [] := List.forall_mem_nil _
    have hread := readsItem_lexNext hopens (Nat.zero_add fuel) state
    rw [lexAllWithin]
    cases hrun : (lexNext fuel).run state with
    | error halt =>
      rw [hrun] at hread
      rw [run_bind_of_error hrun]
      exact hread
    | ok result =>
      obtain ⟨more, after⟩ := result
      rw [hrun] at hread
      rw [run_bind_of_ok hrun]
      cases more with
      | false =>
        obtain ⟨hend, rfl⟩ := hread
        refine ⟨[], (List.append_nil _).symm, ?_⟩
        rw [scan, Scan.tokens_eq, hend]
        rfl
      | true =>
        obtain ⟨piece, new, hpiece, -, -, hreads⟩ := hread
        have hshort := Nat.lt_of_lt_of_le (hreads.length_lt hpiece) (Nat.le_of_lt_succ hrounds)
        have hrest := ih hshort
        rw [if_pos rfl]
        cases hmore : (lexAllWithin fuel rounds).run after with
        | error halt =>
          rw [hmore] at hrest
          obtain ⟨fault, rfl, hfault⟩ := hrest
          exact ⟨fault, rfl, hreads.scan_eq_error hfault⟩
        | ok last =>
          rw [hmore] at hrest
          obtain ⟨found, htokens, hfound⟩ := hrest
          refine ⟨new ++ found, by rw [htokens, hreads.tokens, List.append_assoc], ?_⟩
          rw [hreads.scan_eq]
          change (scan fuel [] after).map _ = _
          rw [hfound]
          simp [Except.map]

/-- Reading character by character finds what the scan with open prints finds. -/
theorem lex_eq (fuel : Nat) (source : String) :
    lex fuel source = (tokenize fuel source).mapError .fault := by
  have hscan : scan fuel [] ⟨.ofText source, []⟩ = tokenize fuel source := rfl
  have hread : ReadsAll fuel ⟨.ofText source, []⟩ _ :=
    readsAll_lexAllWithin (Nat.lt_succ_self (Cursor.ofText source).rest.length)
  rw [lex, lexAll, run_bind_of_ok (run_rounds _)]
  cases hrun : (lexAllWithin fuel ((Cursor.ofText source).rest.length + 1)).run
      ⟨.ofText source, []⟩ with
  | error halt =>
    rw [hrun] at hread
    obtain ⟨fault, rfl, hfault⟩ := hread
    rw [run_bind_of_error hrun, ← hscan, hfault]
    rfl
  | ok last =>
    obtain ⟨⟨⟩, after⟩ := last
    rw [hrun] at hread
    obtain ⟨new, htokens, hfound⟩ := hread
    rw [run_bind_of_ok hrun, run_bind_of_ok (run_position _), run_push, htokens, ← hscan, hfound]
    rfl

/-- A source has no more tokens in front of the mark of its end than characters. -/
theorem exists_of_tokenize_eq_ok {limit : Nat} {source : String} {found : List Token}
    (h : tokenize limit source = .ok found) : ∃ front pos,
    found = front ++ [⟨.eof, "", pos⟩] ∧ front.length ≤ source.length := by
  have htiles : Tiles none (Cursor.ofText source) found := Scan.tiles_tokens h (by decide)
  obtain ⟨spans, rfl, htiling⟩ := htiles source.toList 0 (Cursor.at_ofText source)
  refine ⟨_, _, rfl, ?_⟩
  have hlength := length_spans_le (Nat.zero_le _) htiling.exact htiling.increasing
    fun _ _ ↦ Nat.zero_le _
  rw [List.length_map, ← String.length_toList, ← Nat.zero_add spans.length]
  exact hlength

/-- Every item takes characters and adds tokens, no character is taken at the end of the text, and
no loop goes on without an end. So a text as long as the fuel, or shorter, is read as tokens, no
more of them than it has characters, or there is an error in it. -/
theorem lex_progress :
    (∀ fuel state after, (lexNext fuel).run state = .ok (true, after) →
      ∃ piece new, piece ≠ [] ∧ new ≠ [] ∧ state.here.Passes piece after.here ∧
        after.tokens = state.tokens ++ new) ∧
    (∀ fuel state after, (lexNext fuel).run state = .ok (false, after) →
      after.tokens = state.tokens ∧ after.here.rest = [] ∧
        state.here.Passes (Cursor.layout false state.here.rest) after.here) ∧
    (∀ fuel state halt, (lexNext fuel).run state = .error halt →
      halt ≠ .pastEnd ∧ halt ≠ .endless) ∧
    (∀ fuel source, lex fuel source = (tokenize fuel source).mapError .fault) ∧
    ∀ fuel source, source.length ≤ fuel →
      (∃ found pos, lex fuel source = .ok (found ++ [⟨.eof, "", pos⟩]) ∧
        found.length ≤ source.length) ∨
      ∃ error, lex fuel source = .error (.fault (.error error)) := by
  have hitem : ∀ fuel state, ReadsItem fuel [] state ((lexNext fuel).run state) :=
    fun fuel state ↦ readsItem_lexNext (List.forall_mem_nil _) (Nat.zero_add fuel) state
  refine ⟨fun fuel state after hrun ↦ ?_, fun fuel state after hrun ↦ ?_,
    fun fuel state halt hrun ↦ ?_, lex_eq, fun fuel source hfuel ↦ ?_⟩
  · have hread := hitem fuel state
    rw [hrun] at hread
    obtain ⟨piece, new, hpiece, hnew, -, hreads⟩ := hread
    exact ⟨piece, new, hpiece, hnew, hreads.passes, hreads.tokens⟩
  · have hread := hitem fuel state
    rw [hrun] at hread
    obtain ⟨hend, rfl⟩ := hread
    exact ⟨rfl, hend, state.here.passes_skipLayout⟩
  · have hread := hitem fuel state
    rw [hrun] at hread
    obtain ⟨fault, rfl, -⟩ := hread
    exact ⟨nofun, nofun⟩
  · rw [lex_eq]
    cases hfound : tokenize fuel source with
    | ok found =>
      obtain ⟨front, pos, rfl, hlength⟩ := exists_of_tokenize_eq_ok hfound
      exact .inl ⟨front, pos, rfl, hlength⟩
    | error fault =>
      cases fault with
      | error error => exact .inr ⟨error, rfl⟩
      | tooDeep => exact absurd hfound (tokenize_ne_tooDeep hfuel)

/-- Texts that break off, in a string, behind the first character of an arrow, and in a print. -/
example : lex 1 "\"a" = .error (.fault (.error ⟨.unterminatedString, ⟨1, 1⟩⟩)) ∧
    lex 1 "function f()=" = .error (.fault (.error ⟨.missingFunctionArrow, ⟨1, 13⟩⟩)) ∧
    lex 2 "print((print(1)" = .error (.fault (.error ⟨.unclosedPrint, ⟨1, 6⟩⟩)) := by
  decide +kernel

end Reading

end ByCharacter

end Reckoner
