import Reckoner.CommandLine
import Reckoner.Proofs.Session.Composition

/-!
What the program writes for a file. It goes through the statements on its own, writes as it goes
and may show tokens and trees in between, but all that it does to a statement is to evaluate it:
its lines, its errors and its exit status are those of the outcomes of a run over the same text.
-/

set_option autoImplicit false
set_option relaxedAutoImplicit false

namespace Reckoner

namespace Outcome

/-- The line for a value that has something to show. -/
def valueLines (outcome : Outcome) : List String :=
  match outcome.result with
  | .ok value => if value.display = "" then [] else [value.display]
  | .error _ => []

/-- The line for a failure. -/
def errorLines (outcome : Outcome) : List String :=
  match outcome.result with
  | .ok _ => []
  | .error failure => [failure.report]

section

variable (statement : String) (value : Value) (failure : Failure)

@[simp] theorem isOk_ok : (Outcome.mk statement (.ok value)).isOk = true := rfl

@[simp] theorem isOk_error : (Outcome.mk statement (.error failure)).isOk = false := rfl

@[simp] theorem display_ok : (Outcome.mk statement (.ok value)).display = value.display := rfl

@[simp] theorem display_error :
    (Outcome.mk statement (.error failure)).display = failure.report := rfl

@[simp] theorem errorLines_ok : (Outcome.mk statement (.ok value)).errorLines = [] := rfl

@[simp] theorem errorLines_error :
    (Outcome.mk statement (.error failure)).errorLines = [failure.report] := rfl

@[simp] theorem valueLines_ok : (Outcome.mk statement (.ok value)).valueLines =
    if value.display = "" then [] else [value.display] := rfl

@[simp] theorem valueLines_error :
    (Outcome.mk statement (.error failure)).valueLines = [] := rfl

end

end Outcome

namespace CommandLine

variable {limit : Nat} {options : Options} {session : Session}

@[simp] theorem written_nil : written [] = "" := rfl

@[simp] theorem written_append (first second : List String) :
    written (first ++ second) = written first ++ written second := by
  simp [written]

/-- The line for the tree of a statement, if it is asked for and the statement can be read. -/
def treeLines (limit : Nat) (options : Options) (session : Session) (statement : String) :
    List String :=
  if options.showTree then
    match (session.parse limit statement).1 with
    | .ok expr => [expr.render]
    | .error _ => []
  else []

/-- All lines of output for a statement, of which the outcome is known: its tokens, its tree and
its value. -/
def shownLines (limit : Nat) (options : Options) (session : Session) (outcome : Outcome) :
    List String :=
  tokenLines limit options outcome.statement ++
    treeLines limit options session outcome.statement ++ outcome.valueLines

/-- A statement is evaluated once, as it is without anything being written. -/
theorem evaluate_eq (statement : String) :
    evaluate limit options session statement =
      let evaluated := session.evaluate limit statement
      let outcome : Outcome := ⟨statement, evaluated.1⟩
      (⟨written (shownLines limit options session outcome), written outcome.errorLines,
        outcome.isOk⟩, evaluated.2) := by
  unfold evaluate Session.evaluate shownLines treeLines
  cases hread : session.parse limit statement with
  | mk read next =>
    cases read with
    | error failure => simp [hread]
    | ok expr =>
      dsimp only
      cases next.execute limit expr <;> simp [hread]

/-- The lines of output for a row of statements, each in the session that it meets. -/
def allLines (limit : Nat) (options : Options) (session : Session) (statements : List String) :
    List String :=
  ((session.runAll limit statements).1.mapIdx fun i outcome ↦
    shownLines limit options (session.evaluateAll limit (statements.take i)) outcome).flatten

theorem allLines_cons (statement : String) (rest : List String) :
    allLines limit options session (statement :: rest) =
      shownLines limit options session ⟨statement, (session.evaluate limit statement).1⟩ ++
        allLines limit options (session.evaluate limit statement).2 rest := by
  simp [allLines, Session.runAll_cons, List.mapIdx_cons]

/-- A row of statements is evaluated to the end, whatever has been written on the way. -/
theorem evaluateAll_eq (statements : List String) :
    evaluateAll limit options session statements =
      let outcomes := (session.runAll limit statements).1
      (⟨written (allLines limit options session statements),
        written (outcomes.flatMap Outcome.errorLines), outcomes.all Outcome.isOk⟩,
        session.evaluateAll limit statements) := by
  induction statements generalizing session with
  | nil => rfl
  | cons statement rest ih =>
    simp only [evaluateAll, evaluate_eq, ih, Transcript.append, allLines_cons, written_append,
      Session.runAll_cons, List.flatMap_cons, List.all_cons, Session.evaluateAll_cons]

/-- The outcomes that have something to show. -/
def shown (outcomes : List Outcome) : List Outcome :=
  outcomes.filter (·.display ≠ "")

/-- No report is empty, so that every failure has something to show. -/
theorem report_ne_empty (failure : Failure) : failure.report ≠ "" := by
  intro h
  have hlength := congrArg String.length h
  simp [Failure.report, String.length_append] at hlength

/-- What is written of the outcomes without anything else being asked for is what they show, the
values on one output and the failures on the other. -/
theorem lines_eq (outcomes : List Outcome) :
    outcomes.flatMap Outcome.valueLines =
        ((shown outcomes).filter Outcome.isOk).map Outcome.display ∧
      outcomes.flatMap Outcome.errorLines =
        ((shown outcomes).filter (!·.isOk)).map Outcome.display := by
  induction outcomes with
  | nil => exact ⟨rfl, rfl⟩
  | cons outcome rest ih =>
    obtain ⟨hvalues, herrors⟩ := ih
    rw [List.flatMap_cons, List.flatMap_cons, hvalues, herrors]
    obtain ⟨statement, failure | value⟩ := outcome
    · have hreport := report_ne_empty failure
      simp [shown, hreport]
    · by_cases hempty : value.display = "" <;> simp [shown, List.filter_cons, hempty]

theorem status_eq_zero {transcript : Transcript} :
    status transcript = 0 ↔ transcript.ok = true := by
  cases h : transcript.ok <;> simp [status, h]

theorem status_eq_one {transcript : Transcript} :
    status transcript = 1 ↔ transcript.ok = false := by
  cases h : transcript.ok <;> simp [status, h]

/-- What is asked for a file on which no conversation follows. -/
def batch (path : String) (showTokens showTree : Bool) : Options :=
  ⟨some path, false, showTokens, showTree, false⟩

theorem allLines_plain (path : String) (statements : List String) :
    allLines limit (batch path false false) session statements =
      (session.runAll limit statements).1.flatMap Outcome.valueLines := by
  induction statements generalizing session with
  | nil => rfl
  | cons statement rest ih =>
    rw [allLines_cons, ih, Session.runAll_cons, List.flatMap_cons]
    rfl

theorem transcript_batch (limit : Nat) (path source input : String)
    (showTokens showTree : Bool) :
    transcript limit (batch path showTokens showTree) (some source) input =
      let statements := Source.statements (Source.normalize source)
      let outcomes := (Session.standard.runAll limit statements).1
      ⟨written (allLines limit (batch path showTokens showTree) .standard statements),
        written (outcomes.flatMap Outcome.errorLines), outcomes.all Outcome.isOk⟩ := by
  simp only [transcript, batch, evaluateFile, evaluateAll_eq, Bool.false_eq_true, if_false]

/-- The program on a file and a run over the text of that file are the same evaluation. Every
statement is evaluated once, in the session that the statements before it leave, whatever is to
be shown. The exit status is 0 just in case all outcomes are values, and 1 otherwise. The errors
are the reports of the failures, one line each and in order. The output is, for each statement in
order, the line of its tokens, that of its tree and that of its value, as far as they are asked
for and there are any. So without anything to be shown the two outputs are the lines of an
interpretation, values and failures apart, and what is shown changes neither the errors nor the
status nor the session that any statement meets. -/
theorem transcript_file (limit : Nat) (path source input : String) (showTokens showTree : Bool) :
    let options := batch path showTokens showTree
    let statements := Source.statements (Source.normalize source)
    let meets := fun i ↦ Session.standard.evaluateAll limit (statements.take i)
    let outcomes := (Session.standard.run limit (Source.normalize source)).1
    let seen := transcript limit options (some source) input
    let plain := transcript limit (batch path false false) (some source) input
    (outcomes = statements.mapIdx fun i statement ↦
        ⟨statement, ((meets i).evaluate limit statement).1⟩) ∧
    ((status seen = 0 ↔ ∀ outcome ∈ outcomes, outcome.isOk = true) ∧
      (status seen = 1 ↔ ∃ outcome ∈ outcomes, outcome.isOk = false)) ∧
    seen.err = written (outcomes.flatMap Outcome.errorLines) ∧
    seen.out = written (outcomes.mapIdx fun i outcome ↦
        shownLines limit options (meets i) outcome).flatten ∧
    ((Session.standard.interpret limit (Source.normalize source)).1 =
        (shown outcomes).map Outcome.display ∧
      plain.out = written (((shown outcomes).filter Outcome.isOk).map Outcome.display) ∧
      plain.err = written (((shown outcomes).filter (!·.isOk)).map Outcome.display)) ∧
    (seen.err = plain.err ∧ status seen = status plain ∧
      ∀ i, (evaluateAll limit options .standard (statements.take i)).2 = meets i) := by
  intro options statements meets outcomes seen plain
  have houtcomes : outcomes = (Session.standard.runAll limit statements).1 := rfl
  have hinterpret : (Session.standard.interpret limit (Source.normalize source)).1 =
      (shown outcomes).map Outcome.display := by
    simp only [Session.interpret, List.filter_map]
    rfl
  have hseen : seen = ⟨written (allLines limit options .standard statements),
      written (outcomes.flatMap Outcome.errorLines), outcomes.all Outcome.isOk⟩ :=
    transcript_batch limit path source input showTokens showTree
  have hplain : plain = ⟨written (outcomes.flatMap Outcome.valueLines),
      written (outcomes.flatMap Outcome.errorLines), outcomes.all Outcome.isOk⟩ := by
    rw [houtcomes, ← allLines_plain path statements]
    exact transcript_batch limit path source input false false
  -- the texts are not looked into any further
  clear_value seen plain outcomes statements
  obtain ⟨hvalues, herrors⟩ := lines_eq outcomes
  subst hseen hplain
  refine ⟨?_, ⟨?_, ?_⟩, rfl, ?_, ⟨hinterpret, ?_, ?_⟩, rfl, rfl, fun i ↦ ?_⟩
  · rw [houtcomes, Session.runAll_eq]
  · rw [status_eq_zero, List.all_eq_true]
  · rw [status_eq_one, List.all_eq_false]
    simp only [Bool.not_eq_true]
  · rw [houtcomes, allLines]
  · rw [hvalues]
  · rw [herrors]
  · rw [evaluateAll_eq]

/-- A declaration has nothing to show, and a failure does not end the run. -/
example : transcript nestingLimit (batch "sums" false true) (some "const a = 1;\na +;\na") "" =
    ⟨"<end>\na\n1\n",
      "parse error: 1:4: unexpected token EOF at start of expression\n", false⟩ := by
  decide +kernel

end CommandLine

end Reckoner
