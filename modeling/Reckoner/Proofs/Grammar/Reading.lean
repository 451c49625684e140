import Reckoner.Proofs.Grammar.ParseTree

/-!
What the readers of single tokens do. Each has an equation for the row it succeeds on, and
a lemma that recovers the row from its success. Rows of readers are taken apart with
`run_bind_eq_ok` and put together with `run_bind_of_ok`.
-/

set_option autoImplicit false
set_option relaxedAutoImplicit false

namespace Reckoner

namespace Reader

variable {α β : Type}

theorem run_bind_eq_ok {reader : Reader α} {next : α → Reader β} {row after : TokenRow}
    {value : β} :
    (reader >>= next).run row = .ok (value, after) ↔
      ∃ first middle, reader.run row = .ok (first, middle) ∧
        (next first).run middle = .ok (value, after) := by
  cases h : reader.run row with
  | error fault => simp [run_bind_of_error h]
  | ok result =>
    obtain ⟨first, middle⟩ := result
    rw [run_bind_of_ok h]
    constructor
    · exact fun hnext ↦ ⟨first, middle, rfl, hnext⟩
    · rintro ⟨first', middle', heq, hnext⟩
      cases heq
      exact hnext

theorem run_pure_eq_ok {value result : α} {row after : TokenRow} :
    (pure value : Reader α).run row = .ok (result, after) ↔ value = result ∧ row = after := by
  rw [run_pure, Except.ok.injEq, Prod.mk.injEq]

theorem run_fail (cause : ParseError.Cause) (token : Token) (row : TokenRow) :
    (fail cause token : Reader α).run row = .error (.error ⟨cause, token⟩) :=
  rfl

theorem run_peek (row : TokenRow) :
    peek.run row = .ok (row.rest.headD ⟨.eof, "", .unknown⟩, row) :=
  rfl

theorem run_skip (token : Token) (rest : List Token) (staged : List Declaration) :
    skip.run ⟨token :: rest, staged⟩ = .ok ((), ⟨rest, staged⟩) :=
  rfl

theorem run_stage (declaration : Declaration) (row : TokenRow) :
    (stage declaration).run row = .ok ((), ⟨row.rest, row.staged ++ [declaration]⟩) :=
  rfl

theorem run_next (row : TokenRow) :
    next.run row = .ok (row.rest.headD ⟨.eof, "", .unknown⟩, ⟨row.rest.tail, row.staged⟩) :=
  rfl

theorem run_next_cons (token : Token) (rest : List Token) (staged : List Declaration) :
    next.run ⟨token :: rest, staged⟩ = .ok (token, ⟨rest, staged⟩) :=
  rfl

/-- Only a token that is there can be of a kind other than the end mark. -/
theorem rest_eq_of_headD {row : TokenRow} {kind : TokenKind} (hkind : kind ≠ .eof)
    (h : (row.rest.headD ⟨.eof, "", .unknown⟩).kind = kind) :
    row.rest = row.rest.headD ⟨.eof, "", .unknown⟩ :: row.rest.tail := by
  obtain ⟨rest, staged⟩ := row
  cases rest with
  | nil => exact absurd h.symm hkind
  | cons token rest => rfl

theorem run_expect {kind : TokenKind} {token : Token} (h : token.kind = kind)
    (rest : List Token) (staged : List Declaration) :
    (expect kind).run ⟨token :: rest, staged⟩ = .ok (token, ⟨rest, staged⟩) := by
  unfold expect
  rw [run_bind_of_ok (run_next _)]
  simp only [List.headD_cons, h, if_true]
  rfl

theorem expect_eq_ok {kind : TokenKind} (hkind : kind ≠ .eof) {row after : TokenRow}
    {token : Token} :
    (expect kind).run row = .ok (token, after) ↔
      token.kind = kind ∧ row = ⟨token :: after.rest, after.staged⟩ := by
  constructor
  · intro h
    unfold expect at h
    rw [run_bind_of_ok (run_next _)] at h
    split at h
    · next hfound =>
      obtain ⟨rfl, rfl⟩ := run_pure_eq_ok.mp h
      exact ⟨hfound, congrArg (TokenRow.mk · row.staged) (rest_eq_of_headD hkind hfound)⟩
    · cases h
  · rintro ⟨h, rfl⟩
    exact run_expect h _ _

theorem run_expectEquals {token : Token} (h : token.kind = .operator ∧ token.text ∈ ["="])
    (rest : List Token) (staged : List Declaration) :
    expectEquals.run ⟨token :: rest, staged⟩ = .ok ((), ⟨rest, staged⟩) := by
  unfold expectEquals
  rw [run_bind_of_ok (run_next _)]
  simp only [List.headD_cons, h.1, List.mem_singleton.mp h.2, and_self, if_true]
  rfl

theorem expectEquals_eq_ok {row after : TokenRow} (h : expectEquals.run row = .ok ((), after)) :
    ∃ sign : OperatorOf ["="], row = ⟨sign.val :: after.rest, after.staged⟩ := by
  unfold expectEquals at h
  rw [run_bind_of_ok (run_next _)] at h
  split at h
  · next hfound =>
    obtain ⟨-, rfl⟩ := run_pure_eq_ok.mp h
    exact ⟨⟨_, hfound.1, List.mem_singleton.mpr hfound.2⟩,
      congrArg (TokenRow.mk · row.staged) (rest_eq_of_headD (by decide) hfound.1)⟩
  · cases h

theorem run_accept_of_eq {kind : TokenKind} {token : Token} (h : token.kind = kind)
    (rest : List Token) (staged : List Declaration) :
    (accept kind).run ⟨token :: rest, staged⟩ = .ok (true, ⟨rest, staged⟩) := by
  unfold accept
  rw [run_bind_of_ok (run_peek _)]
  simp only [List.headD_cons, h, if_true]
  rfl

theorem run_accept_of_ne {kind : TokenKind} {row : TokenRow}
    (h : (row.rest.headD ⟨.eof, "", .unknown⟩).kind ≠ kind) :
    (accept kind).run row = .ok (false, row) := by
  unfold accept
  rw [run_bind_of_ok (run_peek _)]
  simp only [h, if_false]
  rfl

theorem run_accept_cons_of_ne {kind : TokenKind} {token : Token} (h : token.kind ≠ kind)
    (rest : List Token) (staged : List Declaration) :
    (accept kind).run ⟨token :: rest, staged⟩ = .ok (false, ⟨token :: rest, staged⟩) :=
  run_accept_of_ne h

theorem accept_eq_true {kind : TokenKind} (hkind : kind ≠ .eof) {row after : TokenRow}
    (h : (accept kind).run row = .ok (true, after)) :
    ∃ token : TokenOf kind, row = ⟨token.val :: after.rest, after.staged⟩ := by
  by_cases hfound : (row.rest.headD ⟨.eof, "", .unknown⟩).kind = kind
  · have hrest := rest_eq_of_headD hkind hfound
    have hrow : row = ⟨_ :: row.rest.tail, row.staged⟩ := congrArg (TokenRow.mk · row.staged) hrest
    rw [hrow, run_accept_of_eq hfound] at h
    cases h
    exact ⟨⟨_, hfound⟩, hrow⟩
  · rw [run_accept_of_ne hfound] at h
    cases h

theorem accept_eq_false {kind : TokenKind} {row after : TokenRow}
    (h : (accept kind).run row = .ok (false, after)) :
    row = after ∧ (row.rest.headD ⟨.eof, "", .unknown⟩).kind ≠ kind := by
  unfold accept at h
  rw [run_bind_of_ok (run_peek _)] at h
  split at h
  · cases h
  · next hother =>
    obtain ⟨-, rfl⟩ := run_pure_eq_ok.mp h
    exact ⟨rfl, hother⟩

theorem run_acceptOperator {level : Level} {token : Token}
    (h : token.kind = .operator ∧ token.text ∈ level.signs) (rest : List Token)
    (staged : List Declaration) :
    (acceptOperator level.joins).run ⟨token :: rest, staged⟩ =
      .ok (some token, ⟨rest, staged⟩) := by
  unfold acceptOperator
  rw [run_bind_of_ok (run_peek _)]
  simp only [List.headD_cons, h.1, (level.joins_ofText _).mpr h.2, and_self, if_true]
  rfl

theorem run_acceptOperator_of_endsBefore {level : Level} {row : TokenRow}
    (h : level.EndsBefore row.rest) :
    (acceptOperator level.joins).run row = .ok (none, row) := by
  unfold acceptOperator
  rw [run_bind_of_ok (run_peek _), if_neg]
  · rfl
  · rintro ⟨hkind, hjoins⟩
    have hrest := rest_eq_of_headD (by decide) hkind
    refine h _ ?_ hkind ((level.mem_reach _).mpr (.inl ((level.joins_ofText _).mp hjoins)))
    rw [hrest]
    rfl

theorem acceptOperator_eq_some {level : Level} {row after : TokenRow} {token : Token}
    (h : (acceptOperator level.joins).run row = .ok (some token, after)) :
    ∃ sign : OperatorOf level.signs, sign.val = token ∧
      row = ⟨token :: after.rest, after.staged⟩ := by
  unfold acceptOperator at h
  rw [run_bind_of_ok (run_peek _)] at h
  split at h
  · next hfound =>
    cases h
    exact ⟨⟨_, hfound.1, (level.joins_ofText _).mp hfound.2⟩, rfl,
      congrArg (TokenRow.mk · row.staged) (rest_eq_of_headD (by decide) hfound.1)⟩
  · cases h

theorem acceptOperator_eq_none {level : Level} {row after : TokenRow}
    (h : (acceptOperator level.joins).run row = .ok (none, after)) :
    row = after ∧ ∀ token ∈ row.rest.head?, token.kind = .operator → token.text ∉ level.signs := by
  unfold acceptOperator at h
  rw [run_bind_of_ok (run_peek _)] at h
  split at h
  · cases h
  · next hother =>
    obtain ⟨-, rfl⟩ := run_pure_eq_ok.mp h
    refine ⟨rfl, fun token htoken hkind hsign ↦ hother ?_⟩
    rw [List.headD_eq_head?_getD, Option.mem_def.mp htoken]
    exact ⟨hkind, (level.joins_ofText _).mpr hsign⟩

theorem firstRepeated?_eq_none {names : List String} {tokens : List Token} :
    firstRepeated? names tokens = none ↔
      (tokens.map (·.text)).Nodup ∧ ∀ token ∈ tokens, token.text ∉ names := by
  induction tokens generalizing names with
  | nil => simp [firstRepeated?]
  | cons token rest ih =>
    by_cases htoken : token.text ∈ names
    · simp [firstRepeated?, htoken]
    · simp only [firstRepeated?, List.contains_eq_mem, htoken, decide_false, Bool.false_eq_true,
        if_false, ih, List.mem_cons, not_or, List.map_cons, List.nodup_cons, List.mem_map,
        not_exists, not_and, forall_eq_or_imp, not_false_eq_true, true_and]
      constructor
      · exact fun ⟨hnodup, hfresh⟩ ↦
          ⟨⟨fun other hother ↦ (hfresh other hother).1, hnodup⟩,
            fun other hother ↦ (hfresh other hother).2⟩
      · exact fun ⟨⟨hfirst, hnodup⟩, hfresh⟩ ↦
          ⟨hnodup, fun other hother ↦ ⟨hfirst other hother, hfresh other hother⟩⟩

theorem run_parameters {tokens : List (TokenOf .parameter)} {rest : List Token}
    (hnodup : (tokens.map (·.val.text)).Nodup)
    (hrest : ∀ token ∈ rest.head?, token.kind ≠ .parameter) (function : String)
    (staged : List Declaration) :
    (parameters function).run ⟨tokens.map (·.val) ++ rest, staged⟩ =
      .ok (tokens.map (·.val.text), ⟨rest, staged⟩) := by
  have hall : ∀ token ∈ tokens.map (·.val), decide (token.kind = TokenKind.parameter) = true := by
    intro token htoken
    obtain ⟨parameter, -, rfl⟩ := List.mem_map.mp htoken
    exact decide_eq_true parameter.property
  have hstop : rest.takeWhile (·.kind = TokenKind.parameter) = [] := by
    cases rest with
    | nil => rfl
    | cons token rest => simp [hrest token rfl]
  have hleft : rest.dropWhile (·.kind = TokenKind.parameter) = rest := by
    cases rest with
    | nil => rfl
    | cons token rest => simp [hrest token rfl]
  have hnone : firstRepeated? [] (tokens.map (·.val)) = none := by
    rw [firstRepeated?_eq_none, List.map_map]
    exact ⟨hnodup, fun _ _ ↦ List.not_mem_nil⟩
  unfold parameters
  rw [run_bind_of_ok (run_get _)]
  simp only [List.takeWhile_append_of_pos hall, List.dropWhile_append_of_pos hall, hstop, hleft,
    List.append_nil, hnone, List.map_map]
  rfl

theorem parameters_eq_ok {function : String} {row after : TokenRow} {names : List String}
    (h : (parameters function).run row = .ok (names, after)) :
    ∃ tokens : List (TokenOf .parameter), names = tokens.map (·.val.text) ∧ names.Nodup ∧
      row = ⟨tokens.map (·.val) ++ after.rest, after.staged⟩ := by
  unfold parameters at h
  rw [run_bind_of_ok (run_get row)] at h
  dsimp only at h
  split at h
  · cases h
  · next hnone =>
    cases h
    have hall : ∀ token ∈ row.rest.takeWhile (·.kind = TokenKind.parameter),
        token.kind = .parameter := by
      intro token htoken
      have htrue := List.all_eq_true.mp List.all_takeWhile token htoken
      exact of_decide_eq_true htrue
    have hval := List.attachWith_map_subtype_val hall
    refine ⟨(row.rest.takeWhile _).attachWith _ hall, ?_, (firstRepeated?_eq_none.mp hnone).1, ?_⟩
    · exact (List.attachWith_map_val hall).symm
    · rw [hval, List.takeWhile_append_dropWhile]

end Reader

end Reckoner
