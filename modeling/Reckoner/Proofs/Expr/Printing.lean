import Reckoner.Expr.Printing
import Reckoner.Proofs.Grammar.Words
import Reckoner.Proofs.Token.Words

/-!
Printed expressions as tokens. Where names and strings are spelled as tokens are, numbers have no
exponent and strings need no escapes, the text of an expression has the tokens that its nodes
call for, before any text that does not carry on its last word.
-/

set_option autoImplicit false
set_option relaxedAutoImplicit false

namespace Reckoner

open Text

/-- The kind of the token that writes the operator. -/
def Operator.kind (op : Operator) : TokenKind :=
  if op.compares then .comparison else .operator

/-- Rows of tokens with commas between them. -/
def commaJoined (rows : List (List (TokenKind × String))) : List (TokenKind × String) :=
  [(TokenKind.comma, ",")].intercalate rows

mutual

/-- The tokens of the text of an expression, apart from their positions. -/
def Expr.spelled : Expr → List (TokenKind × String)
  | .literal _ (.number x) => [(.number, (Value.number x).literal)]
  | .literal _ (.text content) => [(.string, content)]
  | .literal _ value => [(.identifier, value.literal)]
  | .access _ name => [(.identifier, name)]
  | .binary _ op left right =>
    (.leftParen, "(") :: (left.spelled ++ (op.kind, op.text) ::
      (right.spelled ++ [(.rightParen, ")")]))
  | .ifThenElse _ condition thenBranch elseBranch =>
    (.ifWord, "if") :: (condition.spelled ++ (.thenWord, "then") ::
      (thenBranch.spelled ++ (.elseWord, "else") :: elseBranch.spelled))
  | .letIn _ name value body =>
    (.letWord, "let") :: (.identifier, name) :: (.operator, "=") ::
      (value.spelled ++ (.inWord, "in") :: body.spelled)
  | .letGroup _ bindings body =>
    (.letWord, "let") :: (.singleArrow, "->") :: (.leftBrace, "\x7b") ::
      (commaJoined (spelledBindings bindings) ++ (.rightBrace, "\x7d") :: (.inWord, "in") ::
        body.spelled)
  | .userCall _ name args =>
    (.identifier, name) :: (.leftParen, "(") ::
      (commaJoined (spelledArgs args) ++ [(.rightParen, ")")])
  | .builtinCall _ name args =>
    (.identifier, name) :: (.leftParen, "(") ::
      (commaJoined (spelledArgs args) ++ [(.rightParen, ")")])
  | .function _ name parameters body =>
    (.functionWord, "function") :: (.functionName, name) ::
      (parameters.map ((.parameter, ·)) ++ (.doubleArrow, "=>") :: body.spelled)
  | .endMarker _ => [(.comparison, "<"), (.identifier, "end"), (.comparison, ">")]

/-- The tokens of arguments. -/
def spelledArgs : List Expr → List (List (TokenKind × String))
  | [] => []
  | arg :: rest => arg.spelled :: spelledArgs rest

/-- The tokens of bindings. -/
def spelledBindings : List (String × Expr) → List (List (TokenKind × String))
  | [] => []
  | (name, value) :: rest =>
    ((.identifier, name) :: (.operator, "=") :: value.spelled) :: spelledBindings rest

end

theorem spelledArgs_eq_map (args : List Expr) : spelledArgs args = args.map Expr.spelled := by
  induction args with
  | nil => simp [spelledArgs]
  | cons arg rest ih => simp [spelledArgs, ih]

theorem spelledBindings_eq_map (bindings : List (String × Expr)) :
    spelledBindings bindings = bindings.map fun binding ↦
      (.identifier, binding.1) :: (.operator, "=") :: binding.2.spelled := by
  induction bindings with
  | nil => simp [spelledBindings]
  | cons binding rest ih => simp [spelledBindings, ih]

namespace Expr

/-- Whether the expression ends with a part that an operator behind it would carry on. -/
def openEnded : Expr → Bool
  | ifThenElse _ _ _ _ => true
  | letIn _ _ _ _ => true
  | letGroup _ _ _ => true
  | _ => false

/-- Whether the node reads back from its text: numbers are plain, strings are visible text
without backslashes, no left operand of a calculation is open at its end, and no declaration
has left an end marker. -/
def Reprintable : Expr → Prop
  | literal _ (.number x) => Number.isPlain x = true
  | literal _ (.text content) =>
    ∀ c ∈ content.toList, 32 ≤ c.toNat ∧ c.toNat < 127 ∧ c ≠ '\\'
  | binary _ op left _ => op.calculates = true → left.openEnded = false
  | endMarker _ => False
  | _ => True

instance : DecidablePred Reprintable
  | literal _ (.number x) => inferInstanceAs (Decidable (Number.isPlain x = true))
  | literal _ (.text content) => List.decidableBAll _ content.toList
  | binary _ op left _ =>
    inferInstanceAs (Decidable (op.calculates = true → left.openEnded = false))
  | endMarker _ => .isFalse id
  | literal _ .none | literal _ (.boolean _) | access _ _ | ifThenElse _ _ _ _ | letIn _ _ _ _
  | letGroup _ _ _ | userCall _ _ _ | builtinCall _ _ _ | function _ _ _ _ => .isTrue trivial

end Expr

namespace Scan

variable {limit : Nat} {behind : List Char} {spellings : List (TokenKind × String)}

/-- Whether the text has the given tokens where no operand has ended, before any text that is
apart from it and follows an operand. -/
def Prints (limit : Nat) (text : List Char) (spelled : List (TokenKind × String)) : Prop :=
  ∀ behind spellings, Apart behind → Spells limit [] true behind spellings →
    Spells limit [] false (text ++ behind) (spelled ++ spellings)

/-- Texts with commas and spaces between them have the tokens of each, with commas between. -/
theorem Spells.joined {α : Type} {items : List α} {text : α → List Char}
    {spelled : α → List (TokenKind × String)}
    (hitems : ∀ item ∈ items, Prints limit (text item) (spelled item)) (hbehind : Apart behind)
    (h : ∀ afterOperand, Spells limit [] afterOperand behind spellings) :
    Spells limit [] false ([',', ' '].intercalate (items.map text) ++ behind)
      (commaJoined (items.map spelled) ++ spellings) := by
  induction items with
  | nil => exact h false
  | cons first others ih =>
    obtain ⟨hfirst, hothers⟩ := List.forall_mem_cons.mp hitems
    cases others with
    | nil => simpa [commaJoined] using hfirst _ _ hbehind (h true)
    | cons second others =>
      have hmore := hfirst _ _ (apart_cons.mpr (by decide))
        (Spells.punctuation (c := ',') rfl rfl ((ih hothers).blank isBlank_space))
      simpa [commaJoined, List.intercalate_cons_cons] using hmore

/-- An operator stands in front of a space. -/
theorem Spells.sign {op : Operator} (hop : op.calculates = true ∨ op.compares = true)
    (h : Spells limit [] false behind spellings) :
    Spells limit [] true (op.text.toList ++ ' ' :: behind) ((op.kind, op.text) :: spellings) := by
  have hspace : Apart (' ' :: behind) := apart_cons.mpr (by decide)
  have h := h.blank isBlank_space
  cases op with
  | add => exact Spells.alone (c := '+') rfl (by decide) (by decide) (by decide) hspace h
  | sub => exact Spells.alone (c := '-') rfl (by decide) (by decide) (by decide) hspace h
  | mul => exact Spells.alone (c := '*') rfl (by decide) (by decide) (by decide) hspace h
  | div => exact Spells.alone (c := '/') rfl (by decide) (by decide) (by decide) hspace h
  | pow => exact Spells.alone (c := '^') rfl (by decide) (by decide) (by decide) hspace h
  | lt => exact Spells.alone (c := '<') rfl (by decide) (by decide) (by decide) hspace h
  | gt => exact Spells.alone (c := '>') rfl (by decide) (by decide) (by decide) hspace h
  | le => exact Spells.alone (c := '<') rfl (by decide) (by decide) (by decide) hspace h
  | ge => exact Spells.alone (c := '>') rfl (by decide) (by decide) (by decide) hspace h
  | eq => exact Spells.alone (c := '=') rfl (by decide) (by decide) (by decide) hspace h
  | ne => exact Spells.alone (c := '!') rfl (by decide) (by decide) (by decide) hspace h
  | unknown text => exact hop.elim nofun nofun

theorem apart_space (rest : List Char) : Apart (' ' :: rest) := apart_cons.mpr (by decide)

/-- The words that a printed expression has between its parts. -/
def IsKeyword (kind : TokenKind) (text : String) : Prop :=
  (kind, text) ∈ [(TokenKind.ifWord, "if"), (.thenWord, "then"), (.elseWord, "else"),
    (.letWord, "let"), (.inWord, "in")]

/-- A keyword stands in front of a space. -/
theorem Spells.keyword {afterOperand : Bool} (kind : TokenKind) (text : String)
    (hword : IsKeyword kind text) (h : Spells limit [] false behind spellings) :
    Spells limit [] afterOperand (text.toList ++ ' ' :: behind) ((kind, text) :: spellings) := by
  have h := h.blank isBlank_space
  simp only [IsKeyword, List.mem_cons, Prod.mk.injEq, List.not_mem_nil, or_false] at hword
  rcases hword with ⟨rfl, rfl⟩ | ⟨rfl, rfl⟩ | ⟨rfl, rfl⟩ | ⟨rfl, rfl⟩ | ⟨rfl, rfl⟩
  all_goals
    exact Spells.word ⟨_, _, rfl, rfl, rfl⟩ rfl (by decide) (by decide) (apart_space _) h

/-- A keyword with a space in front of it stands between two parts. -/
theorem Spells.between {text part : List Char}
    {spelled spelledPart : List (TokenKind × String)} (kind : TokenKind) (word : String)
    (hword : IsKeyword kind word)
    (hfirst : Prints limit text spelled) (hsecond : Spells limit [] false part spelledPart) :
    Spells limit [] false (text ++ ' ' :: (word.toList ++ ' ' :: part))
      (spelled ++ (kind, word) :: spelledPart) :=
  hfirst _ _ (apart_space _) ((Spells.keyword kind word hword hsecond).blank isBlank_space)

end Scan

namespace Expr

open Scan

/-- Whether printing makes text of the node that is read as a node of the same kind. -/
def IsPrinted (builtins : NameMap Builtin) (callable : String → Prop) (node : Expr) : Prop :=
  IsRead builtins callable node ∧ IsSpelled node ∧ Reprintable node

variable {builtins : NameMap Builtin} {callable : String → Prop}

theorem prints_literal (limit : Nat) {pos : Pos} {value : Value}
    (h : IsPrinted builtins callable (literal pos value)) :
    Prints limit value.literal.toList (literal pos value).spelled := by
  intro behind spellings hbehind hnext
  obtain ⟨⟨x, rfl⟩ | ⟨content, rfl⟩, hquote, hvalue⟩ := h
  · exact Spells.number (Value.writtenAs_literal hvalue) hbehind hnext
  · have htext : (Text.literal content).toList = '"' :: (content.toList ++ ['"']) := by
      rw [Text.literal, String.toList_ofList, flatMap_literalChar _ fun c hc ↦ ?_]
      obtain ⟨hlow, hhigh, hslash⟩ := hvalue c hc
      exact ⟨hlow, hhigh, fun h ↦ hquote (h ▸ hc), hslash⟩
    have hquoted : Spells limit [] false _ _ := Spells.quoted hquote hbehind hnext
    simpa [Value.literal, htext, spelled] using hquoted

/-- An operation between parentheses. -/
theorem prints_binary {limit : Nat} {op : Operator} {left right : Expr} (pos : Pos)
    (hop : op.calculates = true ∨ op.compares = true)
    (hleft : Prints limit left.render.toList left.spelled)
    (hright : Prints limit right.render.toList right.spelled) :
    Prints limit (binary pos op left right).render.toList (binary pos op left right).spelled := by
  intro behind spellings hbehind h
  have hclose : Spells limit [] true (')' :: behind) ((.rightParen, ")") :: spellings) :=
    Spells.punctuation rfl rfl h
  have hoperand := hright _ _ (apart_cons.mpr (by decide)) hclose
  have hinner := hleft _ _ (apart_space _) ((Spells.sign hop hoperand).blank isBlank_space)
  have hopen : Spells limit [] false ('(' :: _) _ := Spells.punctuation rfl rfl hinner
  simpa [render, spelled] using hopen

theorem prints_ifThenElse {limit : Nat} {condition thenBranch elseBranch : Expr} (pos : Pos)
    (hcondition : Prints limit condition.render.toList condition.spelled)
    (hthen : Prints limit thenBranch.render.toList thenBranch.spelled)
    (helse : Prints limit elseBranch.render.toList elseBranch.spelled) :
    Prints limit (ifThenElse pos condition thenBranch elseBranch).render.toList
      (ifThenElse pos condition thenBranch elseBranch).spelled := by
  intro behind spellings hbehind h
  have hbranches := Spells.between .elseWord "else" (by simp [IsKeyword]) hthen
    (helse _ _ hbehind h)
  have hinner := Spells.between .thenWord "then" (by simp [IsKeyword]) hcondition hbranches
  have hword : Spells limit [] false _ _ :=
    Spells.keyword .ifWord "if" (by simp [IsKeyword]) hinner
  simpa [render, spelled] using hword

/-- A name bound to a value. -/
theorem spells_binding {limit : Nat} {name : String} {behind : List Char}
    {spellings : List (TokenKind × String)} (hname : IsIdentifier name)
    (h : Spells limit [] false behind spellings) :
    Spells limit [] false (name.toList ++ ' ' :: '=' :: ' ' :: behind)
      ((.identifier, name) :: (.operator, "=") :: spellings) := by
  have hequals : Spells limit [] true ('=' :: ([] ++ ' ' :: behind)) _ :=
    Spells.alone rfl (by decide) (by decide) (by decide) (apart_space _) (h.blank isBlank_space)
  exact Spells.word hname.1 hname.2 (by decide) (by decide) (apart_space _)
    (hequals.blank isBlank_space)

theorem prints_letIn {limit : Nat} {name : String} {value body : Expr} (pos : Pos)
    (hname : IsIdentifier name) (hvalue : Prints limit value.render.toList value.spelled)
    (hbody : Prints limit body.render.toList body.spelled) :
    Prints limit (letIn pos name value body).render.toList
      (letIn pos name value body).spelled := by
  intro behind spellings hbehind h
  have hinner := Spells.between .inWord "in" (by simp [IsKeyword]) hvalue (hbody _ _ hbehind h)
  have hword : Spells limit [] false _ _ :=
    Spells.keyword .letWord "let" (by simp [IsKeyword]) (spells_binding hname hinner)
  simpa [render, spelled] using hword

/-- Names bound to their values, with commas between them. -/
theorem spells_bindings {limit : Nat} {bindings : List (String × Expr)} {behind : List Char}
    {spellings : List (TokenKind × String)}
    (hnames : ∀ binding ∈ bindings, IsIdentifier binding.1)
    (hvalues : ∀ binding ∈ bindings,
      Prints limit binding.2.render.toList binding.2.spelled) (hbehind : Apart behind)
    (h : ∀ afterOperand, Spells limit [] afterOperand behind spellings) :
    Spells limit [] false ((commaSeparated (renderBindings bindings)).toList ++ behind)
      (commaJoined (spelledBindings bindings) ++ spellings) := by
  have hitems : ∀ binding ∈ bindings,
      Prints limit (binding.1 ++ " = " ++ binding.2.render).toList
        ((.identifier, binding.1) :: (.operator, "=") :: binding.2.spelled) := by
    intro binding hbinding behind spellings hbehind h
    have hbound := spells_binding (hnames binding hbinding)
      (hvalues binding hbinding _ _ hbehind h)
    simpa using hbound
  have hjoined := Spells.joined hitems hbehind h
  simpa [commaSeparated, renderBindings_eq_map, spelledBindings_eq_map, Function.comp_def]
    using hjoined

theorem prints_letGroup {limit : Nat} {bindings : List (String × Expr)} {body : Expr} (pos : Pos)
    (hnames : ∀ binding ∈ bindings, IsIdentifier binding.1)
    (hvalues : ∀ binding ∈ bindings, Prints limit binding.2.render.toList binding.2.spelled)
    (hbody : Prints limit body.render.toList body.spelled) :
    Prints limit (letGroup pos bindings body).render.toList
      (letGroup pos bindings body).spelled := by
  intro behind spellings hbehind h
  have hin : Spells limit [] true _ _ :=
    Spells.keyword .inWord "in" (by simp [IsKeyword]) (hbody _ _ hbehind h)
  have hclose (afterOperand : Bool) : Spells limit [] afterOperand (' ' :: '\x7d' :: _) _ :=
    Spells.blank isBlank_space (Spells.punctuation rfl rfl (hin.blank isBlank_space))
  have hinner := spells_bindings hnames hvalues (apart_space _) hclose
  have hopen : Spells limit [] false ('\x7b' :: _) _ :=
    Spells.punctuation rfl rfl (hinner.blank isBlank_space)
  have harrow : Spells limit [] false ('-' :: (['>'] ++ _)) _ :=
    Spells.alone rfl (by decide) (by decide) (by decide) (apart_space _)
      (hopen.blank isBlank_space)
  have hword : Spells limit [] false _ _ :=
    Spells.keyword .letWord "let" (by simp [IsKeyword]) harrow
  simpa [render, spelled] using hword

/-- The name of a call, its parentheses and its arguments. -/
theorem prints_call (limit : Nat) {name : String} {args : List Expr} (hname : IsIdentifier name)
    (hargs : ∀ arg ∈ args, Prints limit arg.render.toList arg.spelled) :
    Prints limit (name ++ "(" ++ commaSeparated (renderArgs args) ++ ")").toList
      ((.identifier, name) :: (.leftParen, "(") ::
        (commaJoined (spelledArgs args) ++ [(.rightParen, ")")])) := by
  intro behind spellings hbehind h
  have hclose (afterOperand : Bool) : Spells limit [] afterOperand (')' :: behind)
      ((.rightParen, ")") :: spellings) := Spells.punctuation rfl rfl h
  have hinner := Spells.joined hargs (apart_cons.mpr (by decide)) hclose
  have hcall : Spells limit [] false _ _ := Spells.word hname.1 hname.2 (by decide) (by decide)
    (apart_cons.mpr (by decide)) (Spells.punctuation (c := '(') rfl rfl hinner)
  simpa [commaSeparated, renderArgs_eq_map, spelledArgs_eq_map, Function.comp_def] using hcall

/-- The text of an expression has the tokens that its nodes call for. -/
theorem prints (limit : Nat) (expr : Expr) (h : expr.Everywhere (IsPrinted builtins callable)) :
    Prints limit expr.render.toList expr.spelled := by
  induction expr using inductionOn with
  | literal pos value => exact prints_literal limit (h _ (.self _))
  | access pos name =>
    obtain ⟨-, hname, -⟩ := h _ (.self _)
    exact fun behind spellings hbehind hnext ↦
      Spells.word hname.1 hname.2 (by decide) (by decide) hbehind hnext
  | binary pos op left right hleft hright =>
    obtain ⟨⟨hread, -⟩, hleftNodes, hrightNodes⟩ := everywhere_binary_iff.mp h
    exact prints_binary pos hread.1 (hleft hleftNodes) (hright hrightNodes)
  | ifThenElse pos condition thenBranch elseBranch hcondition hthen helse =>
    obtain ⟨-, hconditionNodes, hthenNodes, helseNodes⟩ := everywhere_ifThenElse_iff.mp h
    exact prints_ifThenElse pos (hcondition hconditionNodes) (hthen hthenNodes) (helse helseNodes)
  | letIn pos name value body hvalue hbody =>
    obtain ⟨⟨-, hname, -⟩, hvalueNodes, hbodyNodes⟩ := everywhere_letIn_iff.mp h
    exact prints_letIn pos hname (hvalue hvalueNodes) (hbody hbodyNodes)
  | letGroup pos bindings body hbindings hbody =>
    obtain ⟨⟨-, hnames, -⟩, hbindingNodes, hbodyNodes⟩ := everywhere_letGroup_iff.mp h
    exact prints_letGroup pos hnames
      (fun binding hbinding ↦ hbindings binding hbinding (hbindingNodes binding hbinding))
      (hbody hbodyNodes)
  | userCall pos name args hargs =>
    obtain ⟨⟨-, hname, -⟩, hnodes⟩ := everywhere_iff.mp h
    exact prints_call limit hname fun arg harg ↦ hargs arg harg (hnodes arg harg)
  | builtinCall pos name args hargs =>
    obtain ⟨⟨-, hname, -⟩, hnodes⟩ := everywhere_iff.mp h
    exact prints_call limit hname fun arg harg ↦ hargs arg harg (hnodes arg harg)
  | function pos name parameters body hbody => exact (h _ (.self _)).1.elim
  | endMarker pos => exact (h _ (.self _)).2.2.elim

end Expr

end Reckoner
