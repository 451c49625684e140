import Reckoner.Proofs.Session.Declaring
import Reckoner.Proofs.Token.Kinds
import Reckoner.Proofs.Token.Layout

/-!
Source text and statements. A source text is cut at its terminators before anything in it is
read, also inside string literals and comments. So a text that can be read as one statement is
run as that statement if nothing but blanks stands behind its first terminator, and in pieces
otherwise. A piece that holds nothing but comments is not dropped; it is a statement that cannot
be read.
-/

set_option autoImplicit false
set_option relaxedAutoImplicit false

namespace Reckoner

open Text

namespace Source

/-- The first piece is what stands in front of the first terminator. -/
theorem pieces_eq_cons {source first : List Char} {more : List (List Char)}
    (h : pieces source = first :: more) :
    source = first ∧ more = [] ∨
      ∃ rest, source = first ++ ';' :: '\r' :: rest ∧ pieces rest = more := by
  fun_induction pieces source generalizing first more with
  | case1 =>
    cases h
    exact .inl ⟨rfl, rfl⟩
  | case2 rest ih =>
    cases h
    exact .inr ⟨rest, rfl, rfl⟩
  | case3 c rest hterminator hnil => exact absurd hnil (pieces_ne_nil rest)
  | case4 c rest hterminator piece others hpieces ih =>
    cases h
    rcases ih hpieces with ⟨rfl, rfl⟩ | ⟨rest', rfl, hmore⟩
    · exact .inl ⟨rfl, rfl⟩
    · exact .inr ⟨rest', rfl, hmore⟩

/-- A text whose pieces are all blank has nothing but semicolons between its blanks. -/
theorem idle_of_pieces {source : List Char}
    (h : ∀ piece ∈ pieces source, isBlankText piece = true) :
    Scan.Idle source := by
  have hreturn : isBlank '\r' = true := by decide
  fun_induction pieces source with
  | case1 => exact List.forall_mem_nil _
  | case2 rest ih =>
    have hrest := ih (List.forall_mem_cons.mp h).2
    exact List.forall_mem_cons.mpr ⟨.inr rfl, List.forall_mem_cons.mpr ⟨.inl hreturn, hrest⟩⟩
  | case3 c rest hterminator hnil => exact absurd hnil (pieces_ne_nil rest)
  | case4 c rest hterminator piece others hpieces ih =>
    obtain ⟨hpiece, hothers⟩ := List.forall_mem_cons.mp h
    rw [isBlankText, List.all_cons, Bool.and_eq_true] at hpiece
    have hrest := ih (hpieces ▸ List.forall_mem_cons.mpr ⟨hpiece.2, hothers⟩)
    exact List.forall_mem_cons.mpr ⟨.inl hpiece.1, hrest⟩

/-- Layout that starts with blanks in front of a semicolon ends at the semicolon. -/
theorem layout_blanks {blanks : List Char} (h : isBlankText blanks = true) (tail : List Char) :
    Cursor.layout false (blanks ++ ';' :: tail) = blanks := by
  rw [Cursor.layout_append_of_isLayout (isLayout_of_isBlank (List.all_eq_true.mp h) false)]
  exact List.append_nil blanks

theorem layout_of_isBlankText {blanks : List Char} (h : isBlankText blanks = true) :
    Cursor.layout false blanks = blanks :=
  Cursor.layout_of_isLayout (isLayout_of_isBlank (List.all_eq_true.mp h) false)

/-- Layout outside comments starts with a blank or with the two slashes of a comment. -/
theorem layout_cons_cases {c : Char} {rest : List Char}
    (h : Cursor.layout false (c :: rest) = c :: rest) :
    isBlank c = true ∧ Cursor.layout false rest = rest ∨
      c = '/' ∧ ∃ comment, rest = '/' :: comment ∧ Cursor.layout true comment = comment := by
  by_cases hblank : isBlank c = true
  · rw [Cursor.layout_blank hblank] at h
    exact .inl ⟨hblank, (List.cons.inj h).2⟩
  · by_cases hcomment : ∃ comment, c :: rest = '/' :: '/' :: comment
    · obtain ⟨comment, heq⟩ := hcomment
      obtain ⟨rfl, rfl⟩ := List.cons.inj heq
      exact .inr ⟨rfl, comment, rfl, (List.cons.inj (List.cons.inj h).2).2⟩
    · rw [Cursor.layout.eq_4, if_neg hblank] at h
      · cases h
      · rintro comment rfl rfl
        exact hcomment ⟨comment, rfl⟩

/-- The pieces of a text that is layout are layout, the first one where the text is. -/
theorem layout_pieces {inComment : Bool} {source first : List Char} {more : List (List Char)}
    (h : Cursor.layout inComment source = source) (hpieces : pieces source = first :: more) :
    Cursor.layout inComment first = first ∧ ∀ piece ∈ more, Cursor.layout false piece = piece := by
  fun_induction pieces source generalizing inComment first more with
  | case1 =>
    cases hpieces
    exact ⟨rfl, List.forall_mem_nil _⟩
  | case2 rest ih =>
    cases hpieces
    cases inComment with
    | false =>
      rcases layout_cons_cases h with ⟨hblank, -⟩ | ⟨hslash, -⟩
      · exact absurd hblank (by decide : ¬ isBlank ';' = true)
      · cases hslash
    | true =>
      obtain ⟨piece, others, hrest⟩ := List.exists_cons_of_ne_nil (pieces_ne_nil rest)
      have hlayout : Cursor.layout false rest = rest := (List.cons.inj (List.cons.inj h).2).2
      obtain ⟨hpiece, hothers⟩ := ih hlayout hrest
      exact ⟨rfl, hrest ▸ List.forall_mem_cons.mpr ⟨hpiece, hothers⟩⟩
  | case3 c rest hterminator hnil => exact absurd hnil (pieces_ne_nil rest)
  | case4 c rest hterminator piece others hrest ih =>
    cases hpieces
    cases inComment with
    | true =>
      obtain ⟨hpiece, hothers⟩ := ih (List.cons.inj h).2 hrest
      exact ⟨congrArg (c :: ·) hpiece, hothers⟩
    | false =>
      rcases layout_cons_cases h with ⟨hblank, hlayout⟩ | ⟨rfl, comment, rfl, hlayout⟩
      · obtain ⟨hpiece, hothers⟩ := ih hlayout hrest
        exact ⟨by rw [Cursor.layout_blank hblank, hpiece], hothers⟩
      · -- the second slash is no end of a line, so behind the first one it can count as comment
        have hcomment : Cursor.layout true ('/' :: comment) = '/' :: comment :=
          congrArg ('/' :: ·) hlayout
        obtain ⟨hpiece, hothers⟩ := ih hcomment hrest
        have hslash : ∃ comment', piece = '/' :: comment' := by
          cases piece with
          | nil => rcases Source.pieces_eq_cons hrest with ⟨h, -⟩ | ⟨more, h, -⟩ <;> cases h
          | cons d piece =>
            rcases Source.pieces_eq_cons hrest with ⟨h, -⟩ | ⟨more, h, -⟩ <;>
              exact ⟨piece, by rw [(List.cons.inj h).1]⟩
        obtain ⟨comment', rfl⟩ := hslash
        exact ⟨congrArg ('/' :: '/' :: ·) (List.cons.inj hpiece).2, hothers⟩

/-- A text of layout alone has statements unless it is blank: a terminator inside it stands in a
comment, behind the slashes that begin it. -/
theorem statements_eq_nil_iff {source : String}
    (h : Cursor.layout false source.toList = source.toList) :
    statements source = [] ↔ isBlankText source.toList = true := by
  obtain ⟨first, more, hpieces⟩ := List.exists_cons_of_ne_nil (pieces_ne_nil source.toList)
  unfold statements
  rw [List.map_eq_nil_iff, List.filter_eq_nil_iff, hpieces]
  constructor
  · intro hblank
    have hfirst : isBlankText first = true := by simpa using hblank first List.mem_cons_self
    rcases pieces_eq_cons hpieces with ⟨hsource, -⟩ | ⟨rest, hsource, -⟩
    · rw [hsource, hfirst]
    · rw [hsource, layout_blanks hfirst] at h
      simp at h
  · intro hblank
    rcases pieces_eq_cons hpieces with ⟨hsource, rfl⟩ | ⟨rest, hsource, -⟩
    · simp [← hsource, hblank]
    · simp [hsource, isBlankText, (by decide : isBlank ';' = false)] at hblank

end Source

namespace Session

variable {limit : Nat} {session : Session}

@[simp] theorem runAll_nil : session.runAll limit [] = ([], session) := rfl

theorem length_runAll (statements : List String) :
    (session.runAll limit statements).1.length = statements.length := by
  induction statements generalizing session with
  | nil => rfl
  | cons statement rest ih => exact congrArg (· + 1) ih

theorem runAll_singleton (statement : String) :
    session.runAll limit [statement] =
      ([⟨statement, (session.evaluate limit statement).1⟩],
        (session.evaluate limit statement).2) := rfl

/-- A text that can be read as a statement does not start with a blank piece. -/
theorem isBlankText_of_reads {text : String} {first : List Char} {more : List (List Char)}
    {tokens : List Token} {statement : Statement} (h : Reads limit session text tokens statement)
    (hpieces : Source.pieces text.toList = first :: more) : isBlankText first = false := by
  rw [Bool.eq_false_iff]
  intro hblank
  have hhead : ∀ c ∈ (Cursor.ofText text).skipLayout.rest.head?, c = ';' := by
    rcases Source.pieces_eq_cons hpieces with ⟨hsource, -⟩ | ⟨rest, hsource, -⟩
    · have hlayout := Source.layout_of_isBlankText hblank
      simp [Cursor.ofText, Cursor.skipLayout, Cursor.skip, hsource, hlayout]
    · have hlayout := Source.layout_blanks hblank ('\r' :: rest)
      simp [Cursor.ofText, Cursor.skipLayout, Cursor.skip, hsource, hlayout]
  obtain ⟨token, htoken, hkind⟩ := Scan.head_tokens hhead h.1
  obtain ⟨heof, hsemicolon⟩ := Statement.head_of_ofTokens h.2 token htoken
  exact hkind.elim hsemicolon heof

/-- A statement is read from its first piece alone if the others are blank. -/
theorem reads_first {text : String} {first : List Char} {more : List (List Char)}
    {tokens : List Token} {statement : Statement} (h : Reads limit session text tokens statement)
    (hpieces : Source.pieces text.toList = first :: more)
    (hmore : ∀ piece ∈ more, isBlankText piece = true) :
    ∃ tokens, Reads limit session (String.ofList first) tokens statement := by
  rcases Source.pieces_eq_cons hpieces with ⟨hsource, -⟩ | ⟨rest, hsource, hrest⟩
  · rw [← hsource, String.ofList_toList]
    exact ⟨tokens, h⟩
  · have hidle : Scan.Idle ('\r' :: rest) :=
      List.forall_mem_cons.mpr ⟨.inl (by decide), Source.idle_of_pieces (hrest ▸ hmore)⟩
    have hcursor : Cursor.ofText text =
        (Cursor.ofText (String.ofList first)).terminated ('\r' :: rest) := by
      simp [Cursor.ofText, Cursor.terminated, hsource]
    have htokens := h.1
    rw [Reckoner.tokenize, hcursor] at htokens
    obtain ⟨body, behind, pos, hbody, rfl, hbehind⟩ := Scan.tokens_terminated hidle rfl htokens
    obtain ⟨body', pos', hbody', hkinds⟩ := Scan.exists_tokens_eq hbody
    obtain rfl := List.append_inj_left' hbody' rfl
    exact ⟨_, hbody, Statement.ofTokens_of_terminated hkinds hbehind h.2⟩

theorem evaluate_of_reads {text : String} {tokens : List Token} {statement : Statement}
    (h : Reads limit session text tokens statement) :
    session.evaluate limit text =
      ((session.declaring statement).execute limit statement.expr,
        session.declaring statement) := by
  simp only [evaluate, parse, h.1, h.2, declaring]

/-- Why a text without tokens is no statement: its end stands where an expression should be. -/
def noStatement (limit : Nat) (text : String) : Fault ParseError :=
  if limit < 4 then .tooDeep
  else .error ⟨.noExpression, ⟨.eof, "", Pos.start.after text.toList⟩⟩

/-- A text of layout alone is no statement. -/
theorem evaluate_layout {text : String} (h : Cursor.layout false text.toList = text.toList) :
    session.evaluate limit text = (.error (.parse (noStatement limit text)), session) := by
  have htokens : Reckoner.tokenize limit text =
      .ok [⟨.eof, "", Pos.start.after text.toList⟩] := by
    have hrest : (Cursor.ofText text).skipLayout.rest = [] :=
      Cursor.rest_skipLayout_eq_nil.mpr h
    rw [Reckoner.tokenize, Scan.tokens_eq, hrest]
    simp only [Cursor.skipLayout, Cursor.skip, Cursor.ofText, h]
  have hstatement (pos : Pos) : Statement.ofTokens limit session.declarations [⟨.eof, "", pos⟩] =
      .error (if limit < 4 then .tooDeep else .error ⟨.noExpression, ⟨.eof, "", pos⟩⟩) := by
    rcases Nat.lt_or_ge limit 4 with hshallow | hdeep
    · rw [if_pos hshallow]
      obtain rfl | rfl | rfl | rfl : limit = 0 ∨ limit = 1 ∨ limit = 2 ∨ limit = 3 := by omega
      all_goals rfl
    · obtain ⟨more, rfl⟩ := Nat.exists_eq_add_of_le' hdeep
      rw [if_neg (by omega)]
      rfl
  simp only [evaluate, parse, htokens, hstatement, noStatement]

theorem runAll_layout (limit : Nat) (session : Session) {statements : List String}
    (h : ∀ text ∈ statements, Cursor.layout false text.toList = text.toList) :
    session.runAll limit statements =
      (statements.map fun text ↦ ⟨text, .error (.parse (noStatement limit text))⟩, session) := by
  induction statements with
  | nil => rfl
  | cons text rest ih =>
    obtain ⟨htext, hrest⟩ := List.forall_mem_cons.mp h
    rw [runAll, evaluate_layout htext]
    dsimp only
    rw [ih hrest]
    rfl

/-- Running a text and reading it as one statement. A text that can be read as a statement is run
as that statement, with the same outcome, if all its pieces behind the first are blank, and as
several statements otherwise. A text of nothing but layout is run as no statement if it is blank,
and otherwise each of its pieces with a comment fails and changes nothing. -/
theorem run_or_evaluate (limit : Nat) (session : Session) (source : String) :
    (∀ expr after, session.parse limit source = (.ok expr, after) →
      ((∀ piece ∈ (Source.pieces source.toList).tail, isBlankText piece = true) →
        ∃ statement, Source.statements source = [statement] ∧
          session.run limit source = ([⟨statement, (session.evaluate limit source).1⟩],
            (session.evaluate limit source).2)) ∧
      ((∃ piece ∈ (Source.pieces source.toList).tail, isBlankText piece = false) →
        1 < (session.run limit source).1.length)) ∧
    (Cursor.layout false source.toList = source.toList →
      ((session.run limit source).1 = [] ↔ isBlankText source.toList = true) ∧
      session.run limit source = ((Source.statements source).map fun statement ↦
        ⟨statement, .error (.parse (noStatement limit statement))⟩, session)) := by
  obtain ⟨first, more, hpieces⟩ :=
    List.exists_cons_of_ne_nil (Source.pieces_ne_nil source.toList)
  constructor
  · intro expr after hparse
    obtain ⟨tokens, statement, hreads⟩ : ∃ tokens statement,
        Reads limit session source tokens statement := by
      rcases parse_cases limit session source with
        ⟨failure, -, hfails⟩ | ⟨tokens, statement, hreads, -⟩
      · rw [hfails] at hparse
        cases hparse
      · exact ⟨tokens, statement, hreads⟩
    have hfirst := isBlankText_of_reads hreads hpieces
    have hstatements : Source.statements source =
        String.ofList first :: (more.filter (!isBlankText ·)).map String.ofList := by
      rw [Source.statements, hpieces, List.filter_cons_of_pos (by simp [hfirst]), List.map_cons]
    rw [hpieces, List.tail_cons, run, hstatements]
    constructor
    · intro hmore
      have hnone : more.filter (!isBlankText ·) = [] := by simpa using hmore
      obtain ⟨tokens', hreads'⟩ := reads_first hreads hpieces hmore
      rw [hnone, List.map_nil, runAll_singleton, evaluate_of_reads hreads',
        evaluate_of_reads hreads]
      exact ⟨_, rfl, rfl⟩
    · rintro ⟨piece, hpiece, hnonblank⟩
      have hmem : piece ∈ more.filter (!isBlankText ·) :=
        List.mem_filter.mpr ⟨hpiece, by simp [hnonblank]⟩
      have hpos := List.length_pos_of_mem hmem
      rw [length_runAll, List.length_cons, List.length_map]
      omega
  · intro hlayout
    have hall : ∀ text ∈ Source.statements source,
        Cursor.layout false text.toList = text.toList := by
      intro text htext
      obtain ⟨piece, hpiece, rfl⟩ := List.mem_map.mp htext
      have hmem := (List.mem_filter.mp hpiece).1
      obtain ⟨hfirst, hmore⟩ := Source.layout_pieces hlayout hpieces
      rw [String.toList_ofList]
      rcases List.mem_cons.mp (hpieces ▸ hmem) with rfl | hmem
      · exact hfirst
      · exact hmore piece hmem
    have hrun := runAll_layout limit session hall
    refine ⟨?_, hrun⟩
    rw [← Source.statements_eq_nil_iff hlayout, run, hrun, List.map_eq_nil_iff]

/-- A terminator inside a string literal, and a text of one comment. -/
theorem run_or_evaluate_divided :
    ((Session.standard.evaluate nestingLimit "\"a;\rb\"").1.toOption = some (.text "a;\rb") ∧
      (Session.standard.run nestingLimit "\"a;\rb\"").1.length = 2) ∧
    (Cursor.layout false "// c".toList = "// c".toList ∧
      (Session.standard.run nestingLimit "// c").1.length = 1) := by
  decide +kernel

end Session

end Reckoner
