import Reckoner.Token.Scan

/-!
Parentheses among tokens. Tokens are balanced if every parenthesis that opens among them is closed
among them and the other way round. A scan counts the parentheses that are open from that of a
print on; that its count comes down to nothing says that the tokens ahead are balanced pieces with
a closing parenthesis behind each, one for every parenthesis that is open.
-/

set_option autoImplicit false
set_option relaxedAutoImplicit false

namespace Reckoner

/-- Whether the parentheses among the tokens are in pairs, one inside or behind the other. -/
inductive Balanced : List Token → Prop where
  | nil : Balanced []
  | other {token : Token} {rest : List Token} (hleft : token.kind ≠ .leftParen)
      (hright : token.kind ≠ .rightParen) (hrest : Balanced rest) : Balanced (token :: rest)
  | pair {opening closing : Token} {inside rest : List Token} (hopening : opening.kind = .leftParen)
      (hinside : Balanced inside) (hclosing : closing.kind = .rightParen)
      (hrest : Balanced rest) : Balanced (opening :: (inside ++ closing :: rest))

/-- Whether the first of the tokens is an opening parenthesis whose partner is among the others. -/
def Enclosed (tokens : List Token) : Prop :=
  ∃ opening inside closing rest, tokens = opening :: (inside ++ closing :: rest) ∧
    opening.kind = .leftParen ∧ Balanced inside ∧ closing.kind = .rightParen

/-- Whether every `print` among the tokens is directly followed by an opening parenthesis that has
a partner. -/
def PrintsEnclosed (tokens : List Token) : Prop :=
  ∀ print behind, print :: behind <:+ tokens → print.kind = .printWord → Enclosed behind

theorem printsEnclosed_nil : PrintsEnclosed [] := by
  intro print behind hbehind
  cases List.suffix_nil.mp hbehind

theorem printsEnclosed_cons {token : Token} {tokens : List Token} :
    PrintsEnclosed (token :: tokens) ↔
      (token.kind = .printWord → Enclosed tokens) ∧ PrintsEnclosed tokens := by
  constructor
  · exact fun h ↦ ⟨h token tokens (List.suffix_refl _),
      fun print behind hbehind ↦ h print behind (hbehind.trans (List.suffix_cons token tokens))⟩
  · rintro ⟨hfirst, hmore⟩ print behind hbehind
    rcases List.suffix_cons_iff.mp hbehind with heq | hbehind
    · obtain ⟨rfl, rfl⟩ := List.cons.inj heq
      exact hfirst
    · exact hmore print behind hbehind

/-- Tokens that are no `print` have no say. -/
theorem printsEnclosed_append {first more : List Token}
    (hfirst : ∀ token ∈ first, token.kind ≠ .printWord) :
    PrintsEnclosed (first ++ more) ↔ PrintsEnclosed more := by
  induction first with
  | nil => exact Iff.rfl
  | cons token first ih =>
    obtain ⟨htoken, hfirst⟩ := List.forall_mem_cons.mp hfirst
    rw [List.cons_append, printsEnclosed_cons, ih hfirst, and_iff_right fun h ↦ absurd h htoken]

/-- Whether the tokens close the given number of parentheses. -/
def Unwinds : Nat → List Token → Prop
  | 0, _ => True
  | count + 1, tokens => ∃ inside closing rest, tokens = inside ++ closing :: rest ∧
      Balanced inside ∧ closing.kind = .rightParen ∧ Unwinds count rest

theorem enclosed_iff {tokens : List Token} :
    Enclosed tokens ↔ ∃ opening rest, tokens = opening :: rest ∧ opening.kind = .leftParen ∧
      Unwinds 1 rest := by
  constructor
  · rintro ⟨opening, inside, closing, rest, rfl, hopening, hinside, hclosing⟩
    exact ⟨opening, _, rfl, hopening, inside, closing, rest, rfl, hinside, hclosing, trivial⟩
  · rintro ⟨opening, _, rfl, hopening, inside, closing, rest, rfl, hinside, hclosing, -⟩
    exact ⟨opening, inside, closing, rest, rfl, hopening, hinside, hclosing⟩

namespace Unwinds

variable {count : Nat} {token : Token} {tokens : List Token}

/-- A token that is no parenthesis closes nothing. -/
theorem cons_other (hleft : token.kind ≠ .leftParen) (hright : token.kind ≠ .rightParen) :
    Unwinds count (token :: tokens) ↔ Unwinds count tokens := by
  cases count with
  | zero => exact Iff.rfl
  | succ count =>
    constructor
    · rintro ⟨inside, closing, rest, htokens, hinside, hclosing, hrest⟩
      cases hinside with
      | nil =>
        obtain ⟨rfl, -⟩ := List.cons.inj htokens
        exact absurd hclosing hright
      | other _ _ hinside =>
        obtain ⟨rfl, rfl⟩ := List.cons.inj htokens
        exact ⟨_, closing, rest, rfl, hinside, hclosing, hrest⟩
      | pair hopening =>
        obtain ⟨rfl, -⟩ := List.cons.inj htokens
        exact absurd hopening hleft
    · rintro ⟨inside, closing, rest, rfl, hinside, hclosing, hrest⟩
      exact ⟨token :: inside, closing, rest, rfl, .other hleft hright hinside, hclosing, hrest⟩

theorem cons_right (hright : token.kind = .rightParen) :
    Unwinds (count + 1) (token :: tokens) ↔ Unwinds count tokens := by
  constructor
  · rintro ⟨inside, closing, rest, htokens, hinside, -, hrest⟩
    cases hinside with
    | nil =>
      obtain ⟨-, rfl⟩ := List.cons.inj htokens
      exact hrest
    | other _ hother =>
      obtain ⟨rfl, -⟩ := List.cons.inj htokens
      exact absurd hright hother
    | pair hopening =>
      obtain ⟨rfl, -⟩ := List.cons.inj htokens
      rw [hright] at hopening
      cases hopening
  · exact fun h ↦ ⟨[], token, tokens, rfl, .nil, hright, h⟩

/-- An opening parenthesis is one more to close. -/
theorem cons_left (hleft : token.kind = .leftParen) :
    Unwinds (count + 1) (token :: tokens) ↔ Unwinds (count + 2) tokens := by
  constructor
  · rintro ⟨inside, closing, rest, htokens, hinside, hclosing, hrest⟩
    cases hinside with
    | nil =>
      obtain ⟨rfl, -⟩ := List.cons.inj htokens
      rw [hleft] at hclosing
      cases hclosing
    | other hother =>
      obtain ⟨rfl, -⟩ := List.cons.inj htokens
      exact absurd hleft hother
    | @pair _ partner first more _ hfirst hpartner hmore =>
      obtain ⟨rfl, rfl⟩ := List.cons.inj htokens
      refine ⟨first, partner, more ++ closing :: rest, ?_, hfirst, hpartner, more, closing, rest,
        rfl, hmore, hclosing, hrest⟩
      exact List.append_assoc first (partner :: more) (closing :: rest)
  · rintro ⟨first, partner, _, rfl, hfirst, hpartner, more, closing, rest, rfl, hmore, hclosing,
      hrest⟩
    refine ⟨token :: (first ++ partner :: more), closing, rest, ?_,
      .pair hleft hfirst hpartner hmore, hclosing, hrest⟩
    exact congrArg (token :: ·) (List.append_assoc first (partner :: more) (closing :: rest)).symm

/-- An opening parenthesis has a partner, and the tokens from it on close as many parentheses as
before, if those behind it close one more. -/
theorem succ_iff (hleft : token.kind = .leftParen) :
    Unwinds (count + 1) tokens ↔ Enclosed (token :: tokens) ∧ Unwinds count (token :: tokens) := by
  constructor
  · intro h
    have hone : Unwinds 1 tokens := by
      obtain ⟨inside, closing, rest, htokens, hinside, hclosing, -⟩ := h
      exact ⟨inside, closing, rest, htokens, hinside, hclosing, trivial⟩
    refine ⟨enclosed_iff.mpr ⟨token, tokens, rfl, hleft, hone⟩, ?_⟩
    cases count with
    | zero => trivial
    | succ count => exact (cons_left hleft).mpr h
  · rintro ⟨henclosed, h⟩
    cases count with
    | zero =>
      obtain ⟨opening, rest, htokens, -, hrest⟩ := enclosed_iff.mp henclosed
      obtain ⟨-, rfl⟩ := List.cons.inj htokens
      exact hrest
    | succ count => exact (cons_left hleft).mp h

/-- Without a closing parenthesis nothing is closed. -/
theorem eq_zero_of_nil (h : Unwinds count []) : count = 0 := by
  cases count with
  | zero => rfl
  | succ count =>
    obtain ⟨inside, closing, rest, hnil, -⟩ := h
    exact absurd hnil.symm (List.append_ne_nil_of_right_ne_nil inside (List.cons_ne_nil _ _))

end Unwinds

namespace Scan

/-- How many parentheses are open in open prints. -/
def openParens (opens : List OpenPrint) : Nat :=
  opens.foldr (fun print count ↦ print.depth + count) 0

/-- Whether every open print has a parenthesis that is open: its own at least. -/
def AllOpen (opens : List OpenPrint) : Prop :=
  ∀ print ∈ opens, 0 < print.depth

theorem AllOpen.eq_nil {opens : List OpenPrint} (h : AllOpen opens) (hzero : openParens opens = 0) :
    opens = [] := by
  cases opens with
  | nil => rfl
  | cons innermost outer =>
    have hinnermost := h innermost List.mem_cons_self
    simp only [openParens, List.foldr_cons] at hzero
    omega

/-- A token that is no parenthesis leaves the open prints as they are. -/
theorem track_of_ne {kind : TokenKind} (hleft : kind ≠ .leftParen) (hright : kind ≠ .rightParen)
    (opens : List OpenPrint) : track opens kind = opens := by
  unfold track
  split
  · rfl
  · split
    · exact absurd rfl hleft
    · exact absurd rfl hright
    · rfl

theorem AllOpen.track {opens : List OpenPrint} (h : AllOpen opens) (kind : TokenKind) :
    AllOpen (track opens kind) := by
  cases opens with
  | nil => exact h
  | cons innermost outer =>
    obtain ⟨hinnermost, houter⟩ := List.forall_mem_cons.mp h
    unfold Scan.track
    dsimp only
    split
    · exact List.forall_mem_cons.mpr ⟨Nat.succ_pos _, houter⟩
    · split
      · exact houter
      · exact List.forall_mem_cons.mpr ⟨by dsimp only; omega, houter⟩
    · exact h

theorem length_track_le (opens : List OpenPrint) (kind : TokenKind) :
    (track opens kind).length ≤ opens.length := by
  unfold track
  split
  · exact Nat.le_refl _
  · split
    · exact Nat.le_refl _
    · split
      · exact Nat.le_succ _
      · exact Nat.le_refl _
    · exact Nat.le_refl _

/-- The parentheses that are open behind a token are closed by the tokens behind it if and only if
those that are open in front of it are closed by it and the tokens behind it. -/
theorem unwinds_track {opens : List OpenPrint} (h : AllOpen opens) (token : Token)
    (tokens : List Token) : Unwinds (openParens (track opens token.kind)) tokens ↔
      Unwinds (openParens opens) (token :: tokens) := by
  cases opens with
  | nil => exact Iff.rfl
  | cons innermost outer =>
    have hinnermost := h innermost List.mem_cons_self
    obtain ⟨count, hcount⟩ : ∃ count, openParens (innermost :: outer) = count + 1 :=
      Nat.exists_eq_add_one.mpr (Nat.add_pos_left hinnermost _)
    rw [hcount]
    simp only [openParens, List.foldr_cons] at hcount
    by_cases hleft : token.kind = .leftParen
    · rw [Unwinds.cons_left hleft, hleft]
      have hopens : openParens (track (innermost :: outer) .leftParen) = count + 2 := by
        simp only [openParens, track, List.foldr_cons]
        omega
      rw [hopens]
    · by_cases hright : token.kind = .rightParen
      · rw [Unwinds.cons_right hright, hright]
        have hopens : openParens (track (innermost :: outer) .rightParen) = count := by
          simp only [track]
          split
          · simp only [openParens]
            omega
          · simp only [openParens, List.foldr_cons]
            omega
        rw [hopens]
      · rw [Unwinds.cons_other hleft hright, track_of_ne hleft hright, ← hcount, openParens,
          List.foldr_cons]

/-- The same for several tokens. -/
theorem unwinds_foldl {opens : List OpenPrint} (h : AllOpen opens) (first more : List Token) :
    Unwinds (openParens (first.foldl (fun opens token ↦ track opens token.kind) opens)) more ↔
      Unwinds (openParens opens) (first ++ more) := by
  induction first generalizing opens with
  | nil => exact Iff.rfl
  | cons token first ih =>
    rw [List.foldl_cons, ih (h.track token.kind), List.cons_append, unwinds_track h]

theorem AllOpen.foldl {opens : List OpenPrint} (h : AllOpen opens) (tokens : List Token) :
    AllOpen (tokens.foldl (fun opens token ↦ Scan.track opens token.kind) opens) := by
  induction tokens generalizing opens with
  | nil => exact h
  | cons token tokens ih => exact ih (h.track token.kind)

theorem length_foldl_le (opens : List OpenPrint) (tokens : List Token) :
    (tokens.foldl (fun opens token ↦ track opens token.kind) opens).length ≤ opens.length := by
  induction tokens generalizing opens with
  | nil => exact Nat.le_refl _
  | cons token tokens ih => exact Nat.le_trans (ih _) (length_track_le opens token.kind)

/-- Tokens that are no parentheses leave the open prints as they are. -/
theorem foldl_track_of_ne {tokens : List Token}
    (h : ∀ token ∈ tokens, token.kind ≠ .leftParen ∧ token.kind ≠ .rightParen)
    (opens : List OpenPrint) :
    tokens.foldl (fun opens token ↦ track opens token.kind) opens = opens := by
  induction tokens with
  | nil => rfl
  | cons token tokens ih =>
    obtain ⟨⟨hleft, hright⟩, hmore⟩ := List.forall_mem_cons.mp h
    rw [List.foldl_cons, track_of_ne hleft hright, ih hmore]

end Scan

end Reckoner
