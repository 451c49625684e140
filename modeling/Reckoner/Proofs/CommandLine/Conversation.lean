import Reckoner.Proofs.CommandLine

/-!
What the program writes when it talks. Lines of input and a file that is made of these lines, each
behind a terminator, reach the evaluation on different ways: the lines are evaluated as they come,
the file has its ends of lines made alike first and is cut at its terminators then. Since a line
holds no end of a line, both ways lead to the same statements, whatever semicolons the lines have
of their own.
-/

set_option autoImplicit false
set_option relaxedAutoImplicit false

namespace Reckoner

open Text

namespace Source

variable {line : List Char}

/-- A text without ends of lines stays as it is, whatever follows. -/
theorem unifyLineEnds_append (hreturn : '\r' ∉ line) (hnewline : '\n' ∉ line)
    (rest : List Char) : unifyLineEnds (line ++ rest) = line ++ unifyLineEnds rest := by
  induction line with
  | nil => rfl
  | cons c line ih =>
    rw [List.mem_cons, not_or] at hreturn hnewline
    have hc : ∀ tail, c = '\r' → line ++ rest ≠ '\n' :: tail :=
      fun _ h ↦ absurd h.symm hreturn.1
    rw [List.cons_append, unifyLineEnds.eq_4 _ _ hc (fun h ↦ hnewline.1 h.symm),
      ih hreturn.2 hnewline.2, List.cons_append]

theorem unifyLineEnds_line (hreturn : '\r' ∉ line) (hnewline : '\n' ∉ line) (rest : List Char) :
    unifyLineEnds (line ++ '\n' :: rest) = line ++ '\r' :: unifyLineEnds rest := by
  rw [unifyLineEnds_append hreturn hnewline, unifyLineEnds]

theorem unifiedLines_line (hreturn : '\r' ∉ line) (rest : List Char) :
    unifiedLines (line ++ '\r' :: rest) = line :: unifiedLines rest := by
  induction line with
  | nil => rfl
  | cons c line ih =>
    rw [List.mem_cons, not_or] at hreturn
    rw [List.cons_append, unifiedLines.eq_3 _ _ (fun h ↦ hreturn.1 h.symm), ih hreturn.2]

/-- What stands in front of an end of a line has no terminator in it. -/
theorem pieces_line (hreturn : '\r' ∉ line) (rest : List Char) :
    pieces (line ++ ';' :: '\r' :: rest) = line :: pieces rest := by
  have hline : ¬ [';', '\r'] <:+: line := fun h ↦ hreturn (h.subset (by simp))
  rw [pieces_append, pieces_eq_singleton hline, List.singleton_append]

end Source

namespace CommandLine

/-- Whether the text can be a single line of input. -/
def IsLine (line : String) : Prop :=
  '\r' ∉ line.toList ∧ '\n' ∉ line.toList

instance : DecidablePred IsLine :=
  fun line ↦ inferInstanceAs (Decidable ('\r' ∉ line.toList ∧ '\n' ∉ line.toList))

/-- The text of a file of lines, each with a terminator behind it. -/
def terminated (lines : List String) : String :=
  String.join (lines.map (· ++ ";\n"))

@[simp] theorem toList_written_cons (line : String) (lines : List String) :
    (written (line :: lines)).toList = line.toList ++ '\n' :: (written lines).toList := by
  simp [written]

@[simp] theorem toList_terminated_cons (line : String) (lines : List String) :
    (terminated (line :: lines)).toList =
      line.toList ++ ';' :: '\n' :: (terminated lines).toList := by
  simp [terminated]

/-- The statements of a file of lines are these lines. -/
theorem statements_terminated {lines : List String} (hlines : ∀ line ∈ lines, IsLine line)
    (hkept : ∀ line ∈ lines, isLast line = false) :
    Source.statements (Source.normalize (terminated lines)) = lines := by
  rw [Source.normalize, Source.statements, String.toList_ofList]
  induction lines with
  | nil => rfl
  | cons line lines ih =>
    obtain ⟨⟨hreturn, hnewline⟩, hmore⟩ := List.forall_mem_cons.mp hlines
    obtain ⟨hline, hothers⟩ := List.forall_mem_cons.mp hkept
    -- the terminator belongs to the line until the ends of lines have been made alike
    have hreturn' : '\r' ∉ line.toList ++ [';'] := by simpa using hreturn
    have hnewline' : '\n' ∉ line.toList ++ [';'] := by simpa using hnewline
    have hunified := Source.unifyLineEnds_line hreturn' hnewline' (terminated lines).toList
    simp only [List.append_assoc, List.singleton_append] at hunified
    have hblank : (!isBlankText line.toList) = true := congrArg (!·) hline
    rw [toList_terminated_cons, hunified, Source.pieces_line hreturn, List.filter_cons,
      if_pos hblank, List.map_cons, String.ofList_toList, ih hmore hothers]

/-- Lines that are written one below the other are read as these lines, whatever follows. -/
theorem lines_written {lines : List String} (h : ∀ line ∈ lines, IsLine line) (rest : String) :
    Source.lines (written lines ++ rest) = lines ++ Source.lines rest := by
  induction lines with
  | nil => simp
  | cons line lines ih =>
    obtain ⟨⟨hreturn, hnewline⟩, hmore⟩ := List.forall_mem_cons.mp h
    have hrest := ih hmore
    rw [Source.lines, String.toList_append] at hrest
    rw [Source.lines, String.toList_append, toList_written_cons, List.append_assoc,
      List.cons_append, Source.unifyLineEnds_line hreturn hnewline,
      Source.unifiedLines_line hreturn, List.map_cons, hrest, String.ofList_toList,
      List.cons_append]

variable {limit : Nat} {options : Options} {session : Session}

/-- What is written for each statement of a row, in the session that it meets. -/
def printed (limit : Nat) (options : Options) (session : Session) (statements : List String) :
    List String :=
  (session.runAll limit statements).1.mapIdx fun i outcome ↦
    written (shownLines limit options (session.evaluateAll limit (statements.take i)) outcome)

theorem printed_cons (statement : String) (rest : List String) :
    printed limit options session (statement :: rest) =
      written (shownLines limit options session
          ⟨statement, (session.evaluate limit statement).1⟩) ::
        printed limit options (session.evaluate limit statement).2 rest := by
  simp [printed, Session.runAll_cons, List.mapIdx_cons]

theorem written_allLines (statements : List String) :
    written (allLines limit options session statements) =
      String.join (printed limit options session statements) := by
  induction statements generalizing session with
  | nil => rfl
  | cons statement rest ih =>
    rw [allLines_cons, written_append, ih, printed_cons, String.join_cons]

/-- What is written on the way through a conversation, a prompt in front of each piece. -/
def prompted (pieces : List String) : String :=
  String.join (pieces.map (prompt ++ ·))

/-- A conversation goes through the lines in front of it as a run does, and then goes on in the
session that they leave. -/
theorem converse_append {lines : List String} (h : ∀ line ∈ lines, isLast line = false)
    (rest : List String) :
    converse limit options session (lines ++ rest) =
      let outcomes := (session.runAll limit lines).1
      (Transcript.mk (prompted (printed limit options session lines))
          (written (outcomes.flatMap Outcome.errorLines)) (outcomes.all Outcome.isOk)).append
        (converse limit options (session.evaluateAll limit lines) rest) := by
  induction lines generalizing session with
  | nil => simp [Session.runAll, printed, prompted, Transcript.append]
  | cons line lines ih =>
    obtain ⟨hline, hmore⟩ := List.forall_mem_cons.mp h
    simp only [List.cons_append, converse, hline, Bool.false_eq_true, if_false, evaluate_eq,
      ih hmore, Transcript.append, printed_cons, prompted, List.map_cons, String.join_cons,
      Session.runAll_cons, List.flatMap_cons, written_append, List.all_cons,
      Session.evaluateAll_cons, Bool.true_and, String.empty_append, String.append_assoc,
      Bool.and_assoc]

/-- What is asked for when there is no file. -/
def conversation (showTokens showTree : Bool) : Options :=
  ⟨none, false, showTokens, showTree, false⟩

theorem transcript_none (limit : Nat) (showTokens showTree : Bool) (file : Option String)
    (input : String) :
    transcript limit (conversation showTokens showTree) file input =
      { converse limit (conversation showTokens showTree) .standard (Source.lines input) with
        ok := true } := rfl

/-- Talking and reading a file are the same evaluation. For lines of which none is blank, the
statements of the file are the lines, each evaluated once and in order, in the session that the
ones before it leave. The errors are the same, and the conversation puts a prompt in front of
what the file has written for each line, with a last prompt and an end of line when the input
ends. A blank line ends it at its prompt, whatever further input there is. -/
theorem transcript_conversation (limit : Nat) (path input : String) (showTokens showTree : Bool)
    {lines : List String} (hlines : ∀ line ∈ lines, IsLine line)
    (hkept : ∀ line ∈ lines, isLast line = false) :
    let options := batch path showTokens showTree
    let file := terminated lines
    let meets := fun i ↦ Session.standard.evaluateAll limit (lines.take i)
    let outcomes := (Session.standard.run limit (Source.normalize file)).1
    let pieces := outcomes.mapIdx fun i outcome ↦
      written (shownLines limit options (meets i) outcome)
    let errors := written (outcomes.flatMap Outcome.errorLines)
    (outcomes = lines.mapIdx fun i line ↦ ⟨line, ((meets i).evaluate limit line).1⟩) ∧
    transcript limit options (some file) input =
      ⟨String.join pieces, errors, outcomes.all Outcome.isOk⟩ ∧
    transcript limit (conversation showTokens showTree) none (written lines) =
      ⟨prompted pieces ++ prompt ++ "\n", errors, true⟩ ∧
    ∀ blank rest : String, IsLine blank → isLast blank = true →
      transcript limit (conversation showTokens showTree) none
          (written (lines ++ [blank]) ++ rest) =
        ⟨prompted pieces ++ prompt, errors, true⟩ := by
  intro options file meets outcomes pieces errors
  have hstatements := statements_terminated hlines hkept
  have houtcomes : outcomes = (Session.standard.runAll limit lines).1 := by
    rw [← hstatements]
    rfl
  have hpieces : pieces = printed limit options .standard lines := by
    rw [printed, ← houtcomes]
  -- what is shown of a statement is asked for in the same way with a file and without one
  have htalk (rest : List String) :=
    @converse_append limit (conversation showTokens showTree) .standard lines hkept rest
  have hshown : printed limit (conversation showTokens showTree) .standard lines = pieces := by
    rw [hpieces]
    rfl
  simp only [hshown, ← houtcomes] at htalk
  refine ⟨?_, ?_, ?_, fun blank rest hblank hlast ↦ ?_⟩
  · rw [houtcomes, Session.runAll_eq]
  · have hfile := transcript_batch limit path file input showTokens showTree
    simp only [file, hstatements] at hfile
    rw [hpieces, ← written_allLines]
    simp only [errors, houtcomes]
    exact hfile
  · have hread := lines_written hlines ""
    rw [String.append_empty] at hread
    rw [transcript_none, hread, htalk]
    simp [Transcript.append, Source.lines, Source.unifyLineEnds, Source.unifiedLines, converse,
      errors, String.append_assoc]
  · have hall : ∀ line ∈ lines ++ [blank], IsLine line :=
      List.forall_mem_append.mpr ⟨hlines, List.forall_mem_singleton.mpr hblank⟩
    rw [transcript_none, lines_written hall, List.append_assoc, htalk]
    simp [Transcript.append, converse, hlast, errors]

/-- A declaration with a semicolon of its own, a line that cannot be read, and a value. The
blank line keeps the last one from being evaluated. -/
theorem transcript_conversation_semicolons :
    let lines := ["const a = 1;", "a;a", "a"]
    let talked := transcript nestingLimit (conversation false true) none
      (written (lines ++ [" "]) ++ "2\n")
    let read := transcript nestingLimit (batch "sums" false true) (some (terminated lines)) ""
    ((∀ line ∈ lines, IsLine line) ∧ (∀ line ∈ lines, isLast line = false) ∧
      IsLine " " ∧ isLast " " = true) ∧
    talked.out = "> <end>\n> > a\n1\n> " ∧ read.out = "<end>\na\n1\n" ∧
    talked.err = read.err := by
  intro lines talked read
  have hlines : ∀ line ∈ lines, IsLine line := by decide +kernel
  have hkept : ∀ line ∈ lines, isLast line = false := by decide +kernel
  have hblank : IsLine " " ∧ isLast " " = true := by decide +kernel
  obtain ⟨-, hread, -, hblanks⟩ :=
    transcript_conversation nestingLimit "sums" "" false true hlines hkept
  have htalked := hblanks " " "2\n" hblank.1 hblank.2
  refine ⟨⟨hlines, hkept, hblank⟩, by decide +kernel, by decide +kernel, ?_⟩
  rw [congrArg Transcript.err hread, congrArg Transcript.err htalked]

end CommandLine

end Reckoner
