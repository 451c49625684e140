import Reckoner.Proofs.Token.Spelling

/-!
Writing tokens down. With single spaces between them, quotes around strings and the punctuation
of headers put back, the tokens of a text are a text with the same tokens again. Comments and
other spacing are all that is lost.
-/

set_option autoImplicit false
set_option relaxedAutoImplicit false

namespace Reckoner

open Text

namespace Token

/-- The words that the tokens in front of the end mark are written with. The parameters of a
function are written behind its name, between parentheses and with commas between them. -/
def words : List Token → List String
  | [] => []
  | token :: rest =>
    match token.kind with
    | .eof => []
    | .string => ("\"" ++ token.text ++ "\"") :: words rest
    | .functionName =>
      token.text :: "(" :: (((rest.takeWhile (·.kind = .parameter)).map (·.text)).intersperse "," ++
        ")" :: words rest)
    | .parameter => words rest
    | _ => token.text :: words rest

/-- The tokens in front of the end mark with single spaces between their words. -/
def written (tokens : List Token) : String :=
  " ".intercalate (words tokens)

theorem words_parameters {parameters rest : List Token}
    (h : ∀ token ∈ parameters, token.kind = .parameter) :
    words (parameters ++ rest) = words rest := by
  induction parameters with
  | nil => rfl
  | cons token parameters ih =>
    obtain ⟨htoken, hparameters⟩ := List.forall_mem_cons.mp h
    rw [List.cons_append, words, htoken]
    exact ih hparameters

/-- A lexeme is written as it stands in the source. -/
theorem words_lexeme {afterOperand : Bool} {c : Char} {behind : List Char} {lexeme : Lexeme}
    (h : Lexeme.read afterOperand c behind = .ok lexeme) (pos : Pos) (rest : List Token) :
    words (lexeme.token pos :: rest) = String.ofList lexeme.span :: words rest := by
  rcases Lexeme.isPlain_or_quoted h with
    ⟨⟨hstring, hname, hparameter, heof⟩, hspan⟩ | ⟨body, -, rfl⟩
  · rw [hspan, words]
    split <;> first | contradiction | rfl
  · have hquoted : "\"" ++ String.ofList body ++ "\"" =
        String.ofList ('"' :: (body ++ ['"'])) := by
      rw [← String.toList_inj]
      simp
    exact congrArg (· :: words rest) hquoted

theorem map_intersperse {α β : Type} (f : α → β) (separator : α) (items : List α) :
    (items.intersperse separator).map f = (items.map f).intersperse (f separator) := by
  induction items with
  | nil => rfl
  | cons first items ih =>
    cases items with
    | nil => rfl
    | cons second items =>
      simp only [List.intersperse, List.map_cons] at ih ⊢
      rw [ih]

/-- A header is written with its words. -/
theorem words_header {name arrow : Token} {parameters : List Token} (rest : List Token)
    (hname : name.kind = .functionName)
    (hparameters : ∀ token ∈ parameters, token.kind = .parameter)
    (harrow : arrow.kind = .doubleArrow) :
    (words (name :: (parameters ++ [arrow]) ++ rest)).map (·.toList) =
      Header.words name parameters arrow ++ (words rest).map (·.toList) := by
  have htake : (parameters ++ arrow :: rest).takeWhile (·.kind = .parameter) = parameters := by
    rw [List.takeWhile_append_of_pos (by simpa using hparameters),
      List.takeWhile_cons_of_neg (by simp [harrow]), List.append_nil]
  have hwords : words (parameters ++ arrow :: rest) = arrow.text :: words rest := by
    rw [words_parameters hparameters, words, harrow]
  rw [List.cons_append, List.append_assoc, List.singleton_append, words, hname]
  dsimp only
  rw [htake, hwords]
  simp [Header.words, map_intersperse, Function.comp_def]

end Token

namespace Scan

theorem printParen_eq_ok {here behind : Cursor} {token : Token}
    (h : printParen here = .ok (token, behind)) : ∃ pos, token = ⟨.leftParen, "(", pos⟩ := by
  unfold printParen at h
  dsimp only at h
  split at h
  · cases h
    exact ⟨_, rfl⟩
  · cases h

/-- What a scan finds is found again in the words it is written with. -/
theorem spells_words {limit : Nat} {opens : List OpenPrint} {afterOperand : Bool} {here : Cursor}
    {found : List Token} (h : tokens limit opens afterOperand here = .ok found) :
    Spells limit opens afterOperand (spaced ((Token.words found).map (·.toList)))
      (found.map Token.spelling) := by
  fun_induction tokens limit opens afterOperand here generalizing found with
  | case1 =>
    cases h
    exact Spells.nil
  | case2 => cases h
  | case3 => cases h
  | case4 opens afterOperand here start c rest hrest step hstep =>
    rename_i ih
    obtain ⟨others, hothers, rfl⟩ := exists_of_map_eq_ok h
    have ih := ih hothers
    have hblank : isBlank c = false := Cursor.isBlank_of_drop_layout hrest
    obtain ⟨lexeme, hlexeme, hfound⟩ := step_eq_ok_iff.mp hstep
    obtain ⟨more, behind, hspan, rfl, hread⟩ := Lexeme.read_span hlexeme
    have hwritten (words : List (List Char)) :
        Lexeme.read afterOperand c (more ++ spaced words) = .ok lexeme :=
      Lexeme.read_append_of_ok (apart_spaced words) hread
    rcases hfound with ⟨hfunction, hprint, rfl⟩ | ⟨hkind, header, next, hheader, rfl⟩ |
      ⟨hkind, hlimit, paren, next, hparen, rfl⟩
    · rw [List.singleton_append, Token.words_lexeme hlexeme, List.map_cons, List.map_cons,
        String.toList_ofList, hspan, spaced_cons]
      exact (Spells.lexeme (hwritten _) hspan (layout_lexeme hblank hread hspan (apart_spaced _))
        hfunction hprint ih).blank isBlank_space
    · obtain ⟨name, parameters, arrow, rfl, hname, hparameters, harrow, hagain⟩ :=
        Header.read_spaced hheader
      have hwords := Token.words_header others hname hparameters harrow
      rw [List.cons_append, Token.words_lexeme hlexeme, List.map_cons, hwords, List.map_cons,
        List.map_append, String.toList_ofList, hspan, spaced_cons, spaced_append]
      have hhere := hwritten (Header.words name parameters arrow ++
        (Token.words others).map (·.toList))
      have hlayout := layout_lexeme hblank hread hspan (apart_spaced
        (Header.words name parameters arrow ++ (Token.words others).map (·.toList)))
      rw [spaced_append] at hhere hlayout
      refine (Spells.header hhere hspan hkind hlayout (fun pos ↦ ?_) ih).blank isBlank_space
      rw [← spaced_append]
      exact hagain pos _
    · obtain ⟨pos, rfl⟩ := printParen_eq_ok hparen
      rw [List.cons_append, Token.words_lexeme hlexeme, List.map_cons, List.map_cons,
        String.toList_ofList, hspan, spaced_cons]
      have hparen (others : List Token) :
          Token.words (⟨.leftParen, "(", pos⟩ :: others) = "(" :: Token.words others := rfl
      have hhere := hwritten (['('] :: (Token.words others).map (·.toList))
      have hlayout := layout_lexeme hblank hread hspan
        (apart_spaced (['('] :: (Token.words others).map (·.toList)))
      rw [spaced_cons] at hhere hlayout
      rw [List.singleton_append, hparen, List.map_cons, List.map_cons]
      exact (Spells.print hhere hspan hkind hlayout hlimit rfl ih).blank isBlank_space

end Scan

/-- A text that has tokens is written down with them and has the same tokens again, up to their
positions. -/
theorem tokenize_written {limit : Nat} {source : String} {found : List Token}
    (h : tokenize limit source = .ok found) :
    ∃ again, tokenize limit (Token.written found) = .ok again ∧
      again.map Token.spelling = found.map Token.spelling := by
  have hspells := Scan.spells_words h
  unfold tokenize Cursor.ofText
  rw [Token.written, String.toList_intercalate]
  cases hwords : (Token.words found).map (·.toList) with
  | nil =>
    rw [hwords] at hspells
    exact hspells [] .start rfl
  | cons first others =>
    rw [hwords, spaced_eq_intercalate (List.cons_ne_nil _ _)] at hspells
    obtain ⟨again, hagain, hsame⟩ := hspells [] ⟨1, 0⟩ rfl
    rw [Scan.tokens_blank isBlank_space] at hagain
    exact ⟨again, hagain, hsame⟩

/-- A header without spaces and a subtraction without any. -/
theorem tokenize_written_header :
    ∃ found, tokenize 1 "function f(a,b)=>a-1//c" = .ok found ∧
      Token.written found = "function f ( a , b ) => a - 1" ∧
        ∃ again, tokenize 1 (Token.written found) = .ok again ∧
          again.map Token.spelling = found.map Token.spelling := by
  have htokens : tokenize 1 "function f(a,b)=>a-1//c" = .ok [⟨.functionWord, "function", ⟨1, 1⟩⟩,
      ⟨.functionName, "f", ⟨1, 10⟩⟩, ⟨.parameter, "a", ⟨1, 12⟩⟩, ⟨.parameter, "b", ⟨1, 14⟩⟩,
      ⟨.doubleArrow, "=>", ⟨1, 16⟩⟩, ⟨.identifier, "a", ⟨1, 18⟩⟩, ⟨.operator, "-", ⟨1, 19⟩⟩,
      ⟨.number, "1", ⟨1, 20⟩⟩, ⟨.eof, "", ⟨1, 24⟩⟩] := by
    decide +kernel
  exact ⟨_, htokens, by decide +kernel, tokenize_written htokens⟩

end Reckoner
