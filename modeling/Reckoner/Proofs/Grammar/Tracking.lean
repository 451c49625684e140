import Reckoner.Proofs.Grammar.Language

/-!
Readers that keep track of a language. Of a language are left, behind tokens that have been read,
the words that its words go on with. A reader tracks a language if it takes off the row no more than
the front of a word and leaves what it says is left; and if it fails because a token is not in its
place, the tokens in front of that one are the front of a word, and with it they are not.

What is left may depend on the token that comes next, which a reader looks at but does not take. Row
by row it is that token, too, which tells whether an optional part is there.
-/

set_option autoImplicit false
set_option relaxedAutoImplicit false

namespace Reckoner

open Computability

/-! ### What is left of a language -/

/-- Whether a word of the language starts with the tokens. -/
def Viable (language : Language Token) (front : List Token) : Prop :=
  ∃ word ∈ language, front <+: word

/-- What the words of the language that start with `front` go on with, as far as they then go on
like `rest`. -/
structure Leaves (language : Language Token) (front rest : List Token) (left : Language Token) :
    Prop where
  append_mem : ∀ word ∈ left, front ++ word ∈ language
  mem_left : ∀ word : List Token, word.head? = rest.head? → front ++ word ∈ language → word ∈ left

/-- Whether the token is the first that cannot stand where it stands among the tokens. -/
def Blames (language : Language Token) (tokens : List Token) (token : Token) : Prop :=
  ∃ before after, tokens = before ++ token :: after ∧ Viable language before ∧
    ¬ Viable language (before ++ [token])

section

variable {language left further : Language Token} {front more rest : List Token} {token : Token}

theorem Leaves.refl (language : Language Token) (rest : List Token) :
    Leaves language [] rest language :=
  ⟨fun _ h ↦ h, fun _ _ h ↦ h⟩

theorem Leaves.trans (h : Leaves language front (more ++ rest) left)
    (hmore : Leaves left more rest further) : Leaves language (front ++ more) rest further := by
  constructor
  · intro word hword
    rw [List.append_assoc]
    exact h.append_mem _ (hmore.append_mem word hword)
  · intro word hhead hword
    rw [List.append_assoc] at hword
    refine hmore.mem_left word hhead (h.mem_left _ ?_ hword)
    rw [List.head?_append, List.head?_append, hhead]

/-- One token is taken off. -/
theorem leaves_token (h : ∀ word, token :: word ∈ language ↔ word ∈ left) :
    Leaves language [token] rest left :=
  ⟨fun word ↦ (h word).mpr, fun word _ ↦ (h word).mp⟩

theorem Leaves.blames (h : Leaves language front rest left) (hblames : Blames left rest token) :
    Blames language (front ++ rest) token := by
  obtain ⟨before, after, rfl, ⟨word, hword, hbefore⟩, hnone⟩ := hblames
  refine ⟨front ++ before, after, by rw [List.append_assoc], ⟨front ++ word,
    h.append_mem word hword, (List.prefix_append_right_inj front).mpr hbefore⟩, ?_⟩
  rintro ⟨_, hword, behind, rfl⟩
  rw [List.append_assoc front before, List.append_assoc front] at hword
  refine hnone ⟨_, h.mem_left _ ?_ hword, List.prefix_append (before ++ [token]) behind⟩
  rw [List.append_assoc]
  cases before <;> rfl

/-- The next token is to blame if no word starts with it. -/
theorem blames_head (hword : HasWord language) (h : ∀ word, token :: word ∉ language) :
    Blames language (token :: rest) token := by
  obtain ⟨word, hword⟩ := hword
  refine ⟨[], rest, rfl, ⟨word, hword, List.nil_prefix⟩, ?_⟩
  rintro ⟨_, hmem, behind, rfl⟩
  exact h behind hmem

end

/-- Whether a token is not in its place, whatever the names and numbers mean. -/
def ParseError.Cause.IsUnexpected : ParseError.Cause → Prop
  | afterStatement => True
  | noExpression => True
  | expected _ => True
  | expectedEquals => True
  | invalidNumber => False
  | undefinedFunction => False
  | functionExists => False
  | duplicateParameter _ => False

/-- Whether an end mark is among the tokens. -/
def Ended (tokens : List Token) : Prop :=
  ∃ token ∈ tokens, token.kind = .eof

theorem Ended.of_cons {token : Token} {tokens : List Token} (h : Ended (token :: tokens))
    (htoken : token.kind ≠ .eof) : Ended tokens := by
  obtain ⟨mark, hmem, hmark⟩ := h
  rcases List.mem_cons.mp hmem with rfl | hmem
  · exact absurd hmark htoken
  · exact ⟨mark, hmem, hmark⟩

theorem Ended.exists_cons {tokens : List Token} (h : Ended tokens) :
    ∃ token rest, tokens = token :: rest := by
  obtain ⟨mark, hmem, -⟩ := h
  exact List.exists_cons_of_ne_nil (List.ne_nil_of_mem hmem)

namespace Reader

variable {α β : Type}

/-- Whether a reader that comes to the result on the tokens has kept track of the language. -/
def Tracked (result : Except (Fault ParseError) (α × TokenRow)) (tokens : List Token)
    (language : Language Token) (left : α → Language Token) : Prop :=
  Ended tokens → HasWord language →
    (∀ value after, result = .ok (value, after) → Ended after.rest ∧ HasWord (left value) ∧
      ∃ front, tokens = front ++ after.rest ∧ Leaves language front after.rest (left value)) ∧
    ∀ error, result = .error (.error error) → error.cause.IsUnexpected →
      Blames language tokens error.token

/-- Whether the reader keeps track of the language on every row. -/
def Tracks (reader : Reader α) (language : Language Token) (left : α → Language Token) : Prop :=
  ∀ row, Tracked (reader.run row) row.rest language left

variable {language middle : Language Token} {left : α → Language Token}
  {further : β → Language Token} {result : Except (Fault ParseError) (α × TokenRow)}
  {row after : TokenRow} {front rest : List Token} {token : Token} {value : α}

/-- What is tracked behind some tokens is tracked from these on. -/
theorem Tracked.behind (h : Tracked result rest middle left)
    (hended : Ended (front ++ rest) → Ended rest) (hword : HasWord middle)
    (hleaves : Leaves language front rest middle) :
    Tracked result (front ++ rest) language left := by
  intro hend _
  obtain ⟨hok, herror⟩ := h (hended hend) hword
  constructor
  · intro value after hresult
    obtain ⟨hafter, hleft, more, rfl, hmore⟩ := hok value after hresult
    exact ⟨hafter, hleft, front ++ more, (List.append_assoc _ _ _).symm, hleaves.trans hmore⟩
  · exact fun error hresult hcause ↦ hleaves.blames (herror error hresult hcause)

/-- The token that comes next tells that only part of the language matters. -/
theorem Tracked.of_leaves (h : Tracked result rest middle left) (hword : HasWord middle)
    (hleaves : Leaves language [] rest middle) : Tracked result rest language left :=
  show Tracked result ([] ++ rest) language left from h.behind id hword hleaves

/-- A token is taken off that has its place. -/
theorem Tracked.behind_token (h : Tracked result rest middle left) (hkind : token.kind ≠ .eof)
    (hword : HasWord middle) (hmem : ∀ word, token :: word ∈ language ↔ word ∈ middle) :
    Tracked result (token :: rest) language left :=
  h.behind (fun hended ↦ hended.of_cons hkind) hword (leaves_token hmem)

theorem tracked_ok (hended : Ended (front ++ after.rest) → Ended after.rest)
    (hword : HasWord language → HasWord (left value))
    (hleaves : Leaves language front after.rest (left value)) :
    Tracked (.ok (value, after)) (front ++ after.rest) language left := by
  refine fun hend hlanguage ↦ ⟨fun found behind hfound ↦ ?_, fun _ h ↦ by cases h⟩
  cases hfound
  exact ⟨hended hend, hword hlanguage, front, rfl, hleaves⟩

/-- The row is left as it is. -/
theorem tracked_ok_here (hword : HasWord language → HasWord (left value))
    (hleaves : Leaves language [] after.rest (left value)) :
    Tracked (.ok (value, after)) after.rest language left :=
  show Tracked _ ([] ++ after.rest) language left from tracked_ok id hword hleaves

theorem tracked_ok_token (hkind : token.kind ≠ .eof)
    (hword : HasWord language → HasWord (left value))
    (hmem : ∀ word, token :: word ∈ language ↔ word ∈ left value) :
    Tracked (.ok (value, after)) (token :: after.rest) language left :=
  tracked_ok (fun hended ↦ hended.of_cons hkind) hword (leaves_token hmem)

/-- A reader that fails at the next token, which has no place. -/
theorem tracked_error {cause : ParseError.Cause} (h : ∀ word, token :: word ∉ language) :
    Tracked (.error (.error ⟨cause, token⟩) : Except (Fault ParseError) (α × TokenRow))
      (token :: rest) language left := by
  refine fun _ hword ↦ ⟨fun _ _ h ↦ (by cases h), fun error herror _ ↦ ?_⟩
  cases herror
  exact blames_head hword h

/-- Other failures are of no interest. -/
theorem tracks_fail {cause : ParseError.Cause} (hcause : ¬ cause.IsUnexpected) (token : Token) :
    Tracks (fail cause token : Reader α) language left := by
  refine fun _ _ _ ↦ ⟨fun _ _ h ↦ (by cases h), fun error herror h ↦ ?_⟩
  cases herror
  exact absurd h hcause

theorem tracks_tooDeep : Tracks (throw .tooDeep : Reader α) language left :=
  fun _ _ _ ↦ ⟨fun _ _ h ↦ (by cases h), fun _ h ↦ (by cases h)⟩

theorem Tracked.bind {reader : Reader α} {next : α → Reader β}
    (h : Tracked (reader.run row) row.rest language left)
    (hnext : ∀ value after, reader.run row = .ok (value, after) →
      Tracked ((next value).run after) after.rest (left value) further) :
    Tracked ((reader >>= next).run row) row.rest language further := by
  intro hended hword
  obtain ⟨hok, herror⟩ := h hended hword
  cases hrun : reader.run row with
  | error fault =>
    rw [run_bind_of_error hrun]
    refine ⟨fun _ _ h ↦ (by cases h), fun error hfault ↦ ?_⟩
    cases hfault
    exact herror error hrun
  | ok found =>
    obtain ⟨value, after⟩ := found
    obtain ⟨hafter, hleft, front, hfront, hleaves⟩ := hok value after hrun
    rw [run_bind_of_ok hrun, hfront]
    rw [hfront] at hended
    exact (hnext value after hrun).behind (fun _ ↦ hafter) hleft hleaves hended hword

theorem Tracks.bind {reader : Reader α} {next : α → Reader β} (h : Tracks reader language left)
    (hnext : ∀ value, Tracks (next value) (left value) further) :
    Tracks (reader >>= next) language further :=
  fun row ↦ (h row).bind fun value after _ ↦ hnext value after

theorem tracks_pure (value : α) (language : Language Token) :
    Tracks (pure value) language fun _ ↦ language :=
  fun _ ↦ tracked_ok_here id (.refl _ _)

/-- The next token is taken off. -/
theorem tracked_next {next' : Token → Reader β} {staged : List Declaration}
    (h : Tracked ((next' token).run ⟨rest, staged⟩) (token :: rest) language further) :
    Tracked ((next >>= next').run ⟨token :: rest, staged⟩) (token :: rest) language further := by
  rwa [run_bind_of_ok (run_next_cons token rest staged)]

/-- Only rows with an end mark matter. -/
theorem tracks_of_cons {reader : Reader α}
    (h : ∀ token rest staged,
      Tracked (reader.run ⟨token :: rest, staged⟩) (token :: rest) language left) :
    Tracks reader language left := by
  rintro ⟨rest, staged⟩ hended
  obtain ⟨token, rest, rfl⟩ := Ended.exists_cons hended
  exact h token rest staged hended

theorem tracks_expect (kind : TokenKind) (hkind : kind ≠ .eof) {behind : Language Token} :
    Tracks (expect kind) (kind.language * behind) fun _ ↦ behind := by
  refine tracks_of_cons fun token rest staged ↦ tracked_next ?_
  split
  · next htoken =>
    refine tracked_ok_token (htoken ▸ hkind) (fun h ↦ (HasWord.mul_iff.mp h).2) fun word ↦ ?_
    rw [Token.cons_mem_single_mul, and_iff_right htoken]
  · next htoken => exact tracked_error fun word h ↦ htoken (Token.cons_mem_single_mul.mp h).1

theorem tracks_expectEquals {behind : Language Token} :
    Tracks expectEquals (Operator.language ["="] * behind) fun _ ↦ behind := by
  refine tracks_of_cons fun token rest staged ↦ tracked_next ?_
  split
  · next htoken =>
    refine tracked_ok_token (by simp [htoken.1]) (fun h ↦ (HasWord.mul_iff.mp h).2) fun word ↦ ?_
    rw [Token.cons_mem_single_mul, and_iff_right ⟨htoken.1, List.mem_singleton.mpr htoken.2⟩]
  · next htoken =>
    refine tracked_error fun word h ↦ htoken ?_
    obtain ⟨⟨hkind, htext⟩, -⟩ := Token.cons_mem_single_mul.mp h
    exact ⟨hkind, List.mem_singleton.mp htext⟩

/-- A part that is there if its first token comes next. -/
theorem tracks_accept (kind : TokenKind) (hkind : kind ≠ .eof) {there none : Language Token}
    (hthere : HasWord there) (hnone : HasWord none)
    (hhead : ∀ token word, token :: word ∈ none → token.kind ≠ kind) :
    Tracks (accept kind) (kind.language * there + none) fun found ↦
      if found then there else none := by
  refine tracks_of_cons fun token rest staged ↦ ?_
  by_cases htoken : token.kind = kind
  · rw [run_accept_of_eq htoken]
    refine tracked_ok_token (htoken ▸ hkind) (fun _ ↦ hthere) fun word ↦ ?_
    rw [Language.mem_add, Token.cons_mem_single_mul, and_iff_right htoken]
    exact or_iff_left fun h ↦ hhead token word h htoken
  · rw [run_accept_cons_of_ne htoken]
    refine tracked_ok_here (fun _ ↦ hnone) ⟨fun word h ↦ .inr h, ?_⟩
    rintro word hword (h | h)
    · obtain ⟨first, more, -, rfl⟩ := Token.mem_single_mul.mp h
      cases hword
      exact absurd first.property htoken
    · exact h

theorem tracks_get (language : Language Token) :
    Tracks (get : Reader TokenRow) language fun _ ↦ language :=
  fun _ ↦ tracked_ok_here id (.refl _ _)

theorem tracks_stage (declaration : Declaration) (language : Language Token) :
    Tracks (stage declaration) language fun _ ↦ language := by
  intro row
  rw [run_stage]
  exact tracked_ok_here id (.refl _ row.rest)

/-! ### Operations -/

/-- What is left of operations when an operator has been looked for. -/
def operatorRest (behind : Language Token) : Option Token → Language Token
  | none => tails * behind
  | some _ => exprs * behind

theorem tracks_acceptOperator (level : Level) {behind : Language Token} (hstops : Stops behind) :
    Tracks (acceptOperator level.joins) (tails * behind) (operatorRest behind) := by
  refine tracks_of_cons fun token rest staged ↦ ?_
  by_cases hsign : token.kind = .operator ∧ token.text ∈ level.signs
  · rw [run_acceptOperator hsign]
    refine tracked_ok_token (by simp [hsign.1]) (fun h ↦ ?_) fun word ↦ ?_
    · simpa [operatorRest] using h
    · have hreach : token.text ∈ Level.sum.reach := Level.mem_sum_reach hsign.2
      rw [tails_mul, Language.mem_add, Token.cons_mem_single_mul, and_iff_right ⟨hsign.1, hreach⟩]
      exact or_iff_left fun h ↦ (hstops _ h).1 token rfl hsign.1 hreach
  · have hrun : (acceptOperator level.joins).run ⟨token :: rest, staged⟩ =
        .ok (none, ⟨token :: rest, staged⟩) := by
      rw [acceptOperator, run_bind_of_ok (run_peek _), if_neg]
      · rfl
      · exact fun ⟨hkind, hjoins⟩ ↦ hsign ⟨hkind, (level.joins_ofText _).mp hjoins⟩
    rw [hrun]
    exact tracked_ok_here id (.refl _ _)

variable {operand : Reader Expr} {behind : Language Token} {level : Level}

theorem tracks_operationsWithin (hstops : Stops behind)
    (h : Tracks operand (exprs * behind) fun _ ↦ tails * behind) (bound : List Token)
    (left : Expr) : Tracks (operationsWithin level.joins operand bound left) (tails * behind)
      fun _ ↦ tails * behind := by
  induction bound generalizing left with
  | nil => exact tracks_pure left _
  | cons bounding bound ih =>
    refine (tracks_acceptOperator level hstops).bind fun found ↦ ?_
    cases found with
    | none => exact tracks_pure left _
    | some token => exact h.bind fun right ↦ ih _

theorem tracks_operations (hstops : Stops behind)
    (h : Tracks operand (exprs * behind) fun _ ↦ tails * behind) :
    Tracks (operations level.joins operand) (exprs * behind) fun _ ↦ tails * behind :=
  h.bind fun first ↦ (tracks_get _).bind fun row ↦ tracks_operationsWithin hstops h row.rest first

/-! ### Items -/

/-- What is left of items and the token that closes them. The flag says whether an item has been
read before. -/
def itemsRest (item : Phrase) (close : TokenKind) (behind : Language Token) :
    Bool → Language Token
  | false => (Phrase.items item).language * (close.language * behind)
  | true => (Phrase.moreItems item).language * (close.language * behind)

/-- What is left of them where they do not end: the next item, and more. -/
def itemRest (item : Phrase) (close : TokenKind) (behind : Language Token) : Bool → Language Token
  | false => item.language * itemsRest item close behind true
  | true => TokenKind.comma.language * (item.language * itemsRest item close behind true)

theorem itemsRest_eq (item : Phrase) (close : TokenKind) (behind : Language Token)
    (started : Bool) : itemsRest item close behind started =
      close.language * behind + itemRest item close behind started := by
  cases started with
  | false =>
    rw [itemsRest, Phrase.language_items, add_mul, one_mul, mul_assoc]
    rfl
  | true =>
    rw [itemsRest, Phrase.language_moreItems, add_mul, one_mul, mul_assoc, mul_assoc]
    rfl

theorem stops_itemsRest (item : Phrase) {close : TokenKind} (hclose : close.ClosesItems)
    (behind : Language Token) : Stops (itemsRest item close behind true) := by
  rw [itemsRest_eq]
  refine Stops.add (stops_kind_mul ?_ ?_ behind) (stops_kind_mul (by decide) (by decide) _)
  · rcases hclose with rfl | rfl <;> decide
  · rcases hclose with rfl | rfl <;> decide

/-- The next item does not start with the token that closes the items. -/
theorem head_itemRest {item : Phrase} (hitem : item.IsItem) {close : TokenKind}
    (hclose : close.ClosesItems) {started : Bool} {word : List Token}
    (h : token :: word ∈ itemRest item close behind started) : token.kind ≠ close := by
  cases started with
  | false =>
    obtain ⟨tree, rest, -, hword⟩ := Phrase.mem_language_mul.mp h
    obtain ⟨first, more, htokens, hfirst⟩ := tree.head_item hitem
    rw [htokens] at hword
    obtain ⟨rfl, -⟩ := List.cons.inj hword
    exact fun hkind ↦ hfirst (hkind ▸ hclose)
  | true =>
    rw [(Token.cons_mem_single_mul.mp h).1]
    exact hclose.ne_comma.symm

theorem tracks_itemsWithin {item : Phrase} (hitem : item.IsItem) {close : TokenKind}
    (hclose : close.ClosesItems) {reader : Reader item.Value} {scope : Scope} {depth : Nat}
    (hsound : Sound scope depth item reader)
    (h : ∀ behind, Stops behind → Tracks reader (item.language * behind) fun _ ↦ behind)
    {bound : List Token} (started : Bool) {row : TokenRow}
    (hbound : row.rest.length ≤ bound.length) :
    Tracked ((itemsWithin close reader bound started).run row) row.rest
      (itemsRest item close behind started) fun _ ↦ behind := by
  have heof : close ≠ .eof := by
    rcases hclose with rfl | rfl <;> decide
  induction bound generalizing started row with
  | nil =>
    rintro hended
    obtain ⟨token, rest, hrest⟩ := hended.exists_cons
    rw [hrest] at hbound
    exact absurd hbound (Nat.not_succ_le_zero _)
  | cons bounding bound ih =>
    have hread (row : TokenRow) (hbound : row.rest.length ≤ bound.length + 1) :
        Tracked ((reader >>= fun first ↦ itemsWithin close reader bound true >>= fun others ↦
          pure (first :: others)).run row) row.rest
            (item.language * itemsRest item close behind true) fun _ ↦ behind := by
      refine (h _ (stops_itemsRest item hclose behind) row).bind fun first after hfirst ↦ ?_
      obtain ⟨tree, -, hfits, -⟩ := hsound row first after hfirst
      obtain ⟨token, more, htokens, -⟩ := tree.head_item hitem
      rw [hfits.tokens, htokens, List.length_append, List.length_cons] at hbound
      exact (ih true (by omega)).bind fun others after _ ↦ tracks_pure _ _ after
    intro hended hword
    have hbehind : HasWord behind := by
      cases started <;> exact (HasWord.mul_iff.mp (HasWord.mul_iff.mp hword).2).2
    rw [itemsRest_eq] at hword ⊢
    refine (tracks_accept close heof hbehind ?_ (fun _ _ h ↦ head_itemRest hitem hclose h) row).bind
      (fun closed after hclosed ↦ ?_) hended hword
    · cases started <;> simp [itemRest, itemsRest, HasWord.of_isItem hitem, hbehind]
    · cases closed with
      | true => exact tracks_pure [] behind after
      | false =>
        obtain ⟨rfl, -⟩ := accept_eq_false hclosed
        cases started with
        | false => exact hread row hbound
        | true =>
          refine (tracks_expect .comma nofun row).bind fun comma after hcomma ↦ hread after ?_
          obtain ⟨-, rfl⟩ := (expect_eq_ok (by decide)).mp hcomma
          exact Nat.le_of_succ_le hbound

theorem tracks_items (item : Phrase) (hitem : item.IsItem) {close : TokenKind}
    (hclose : close.ClosesItems) {reader : Reader item.Value} {scope : Scope} {depth : Nat}
    (hsound : Sound scope depth item reader)
    (h : ∀ behind, Stops behind → Tracks reader (item.language * behind) fun _ ↦ behind) :
    Tracks (items close reader) ((Phrase.items item).language * (close.language * behind))
      fun _ ↦ behind := by
  intro row
  refine (tracks_get _ row).bind fun found after hfound ↦ ?_
  cases hfound
  exact tracks_itemsWithin hitem hclose hsound h false (Nat.le_refl _)

/-! ### Parameters -/

/-- Parameters end before anything else. -/
theorem dropWhile_parameter {word : List Token}
    (h : ∀ token ∈ word.head?, token.kind ≠ .parameter) {front : List Token}
    (hfront : ∀ token ∈ front, token.kind = .parameter) :
    (front ++ word).dropWhile (·.kind = TokenKind.parameter) = word := by
  rw [List.dropWhile_append_of_pos (by simpa using hfront)]
  cases word with
  | nil => rfl
  | cons token word => rw [List.dropWhile_cons_of_neg (by simpa using h)]

theorem tracks_parameters (function : String) : Tracks (parameters function)
    (TokenKind.parameter.language∗ * (TokenKind.doubleArrow.language * behind))
      fun _ ↦ TokenKind.doubleArrow.language * behind := by
  rintro ⟨rest, staged⟩
  rw [parameters, run_bind_of_ok (run_get _)]
  dsimp only
  split
  · exact tracks_fail id _ ⟨rest, staged⟩
  · have htake : ∀ token ∈ rest.takeWhile (·.kind = TokenKind.parameter),
        token.kind = .parameter := by
      intro token htoken
      exact of_decide_eq_true (List.all_eq_true.mp List.all_takeWhile token htoken)
    have hstop : ∀ token ∈ (rest.dropWhile (·.kind = TokenKind.parameter)).head?,
        token.kind ≠ .parameter := by
      intro token htoken
      have hhead := List.head?_dropWhile_not (·.kind = TokenKind.parameter) rest
      rw [htoken] at hhead
      exact of_decide_eq_false hhead
    suffices h : Tracked (.ok ((rest.takeWhile (·.kind = TokenKind.parameter)).map (·.text),
        ⟨rest.dropWhile (·.kind = TokenKind.parameter), staged⟩))
        (rest.takeWhile (·.kind = TokenKind.parameter) ++
          rest.dropWhile (·.kind = TokenKind.parameter))
        (TokenKind.parameter.language∗ * (TokenKind.doubleArrow.language * behind))
        fun _ ↦ TokenKind.doubleArrow.language * behind by
      rwa [List.takeWhile_append_dropWhile] at h
    refine tracked_ok ?_ (fun h ↦ (HasWord.mul_iff.mp h).2) ⟨fun word h ↦
      Language.append_mem_mul (Token.mem_kstar_single.mpr htake) h, ?_⟩
    · rintro ⟨mark, hmem, hmark⟩
      rcases List.mem_append.mp hmem with hmem | hmem
      · cases (htake mark hmem).symm.trans hmark
      · exact ⟨mark, hmem, hmark⟩
    · rintro word hhead ⟨front, hfront, more, hmore, hword⟩
      have hend : ∀ token ∈ more.head?, token.kind ≠ .parameter := by
        obtain ⟨arrow, behind, -, rfl⟩ := Token.mem_single_mul.mp hmore
        rintro _ ⟨⟩
        rw [arrow.property]
        decide
      have hsame := congrArg (List.dropWhile (·.kind = TokenKind.parameter)) hword
      rw [dropWhile_parameter hend (Token.mem_kstar_single.mp hfront),
        dropWhile_parameter (hhead ▸ hstop) htake] at hsame
      exact hsame ▸ hmore

end Reader

end Reckoner
