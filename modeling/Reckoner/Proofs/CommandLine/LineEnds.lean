import Mathlib.Data.List.Chain
import Reckoner.Proofs.CommandLine.Conversation

/-!
Files whose lines end in different ways. The ends of lines are made alike before a file is
evaluated, so that only its lines matter, whichever way each of them ends. The one thing that
cannot be told is a carriage return and the newline of an empty line behind it: the two are a
single end, and the file has one line less.
-/

set_option autoImplicit false
set_option relaxedAutoImplicit false

namespace Reckoner

/-- The ways in which a line can end. -/
inductive LineEnd where
  | newline
  | returnNewline
  | carriageReturn
  deriving DecidableEq, Repr

/-- What stands behind a line that ends in this way. -/
def LineEnd.chars : LineEnd → List Char
  | newline => ['\n']
  | returnNewline => ['\r', '\n']
  | carriageReturn => ['\r']

/-- A line of a file and its end. -/
structure EndedLine where
  text : String
  ending : LineEnd
  deriving DecidableEq, Repr

namespace EndedLine

/-- Whether the end of the line is not taken together with that of the next one. -/
def IsApart (line next : EndedLine) : Prop :=
  line.ending = .carriageReturn → next ≠ ⟨"", .newline⟩

instance : DecidableRel IsApart :=
  fun line next ↦ inferInstanceAs (Decidable (line.ending = .carriageReturn → next ≠ _))

/-- The text of a file of lines. -/
def file (lines : List EndedLine) : String :=
  String.join (lines.map fun line ↦ line.text ++ String.ofList line.ending.chars)

/-- The lines, each with a carriage return behind it. -/
def unified (lines : List EndedLine) : String :=
  String.join (lines.map fun line ↦ line.text ++ "\r")

@[simp] theorem toList_file_nil : (file []).toList = [] := rfl

@[simp] theorem toList_file_cons (line : EndedLine) (lines : List EndedLine) :
    (file (line :: lines)).toList =
      line.text.toList ++ (line.ending.chars ++ (file lines).toList) := by
  simp [file]

@[simp] theorem toList_unified_cons (line : EndedLine) (lines : List EndedLine) :
    (unified (line :: lines)).toList = line.text.toList ++ '\r' :: (unified lines).toList := by
  simp [unified]

/-- Only the newline of an empty line can stand at the front of a file. -/
theorem head_file (line : EndedLine) (lines : List EndedLine)
    (hline : CommandLine.IsLine line.text) {tail : List Char} :
    (file (line :: lines)).toList = '\n' :: tail ↔
      line = ⟨"", .newline⟩ ∧ tail = (file lines).toList := by
  obtain ⟨text, ending⟩ := line
  obtain ⟨-, hnewline⟩ := hline
  dsimp only at hnewline
  rw [toList_file_cons]
  constructor
  · intro h
    cases htext : text.toList with
    | nil =>
      rw [htext] at h
      have hempty : text = "" := String.toList_eq_nil_iff.mp htext
      cases ending with
      | newline => exact ⟨by rw [hempty], (List.cons.inj h).2.symm⟩
      | returnNewline => exact absurd (List.cons.inj h).1 (by decide)
      | carriageReturn => exact absurd (List.cons.inj h).1 (by decide)
    | cons c more =>
      rw [htext] at h hnewline
      exact absurd (List.cons.inj h).1 fun hc ↦ hnewline (hc ▸ List.mem_cons_self)
  · rintro ⟨⟨⟩, rfl⟩
    rfl

variable {lines : List EndedLine}

/-- The end of a line becomes a carriage return, and what follows is made alike on its own, where
the end is not taken together with that of the next line. -/
theorem unifyLineEnds_cons {line : EndedLine} (hline : CommandLine.IsLine line.text)
    (hlines : ∀ next ∈ lines, CommandLine.IsLine next.text)
    (hapart : ∀ next ∈ lines.head?, line.IsApart next) :
    Source.unifyLineEnds (file (line :: lines)).toList =
      line.text.toList ++ '\r' :: Source.unifyLineEnds (file lines).toList := by
  rw [toList_file_cons, Source.unifyLineEnds_append hline.1 hline.2]
  congr 1
  cases hending : line.ending with
  | newline => rw [LineEnd.chars, List.singleton_append, Source.unifyLineEnds]
  | returnNewline => rw [LineEnd.chars, List.cons_append, List.singleton_append,
      Source.unifyLineEnds]
  | carriageReturn =>
    have hfront : ∀ tail, '\r' = '\r' → (file lines).toList ≠ '\n' :: tail := by
      intro tail _ htail
      cases lines with
      | nil => cases htail
      | cons next lines =>
        have hnext := (head_file next lines (hlines next List.mem_cons_self)).mp htail
        exact hapart next rfl hending hnext.1
    rw [LineEnd.chars, List.singleton_append, Source.unifyLineEnds.eq_4 _ _ hfront (by decide)]

/-- An end that is taken together with that of the next line is lost. -/
theorem unifyLineEnds_cons_of_not_isApart {line next : EndedLine}
    (hline : CommandLine.IsLine line.text) (happart : ¬ line.IsApart next) :
    Source.unifyLineEnds (file (line :: next :: lines)).toList =
      line.text.toList ++ Source.unifyLineEnds (file (next :: lines)).toList := by
  obtain ⟨hending, hnext⟩ := Classical.not_imp.mp happart
  obtain rfl := not_not.mp hnext
  rw [toList_file_cons, Source.unifyLineEnds_append hline.1 hline.2, hending]
  simp [LineEnd.chars, Source.unifyLineEnds]

/-- There are never more ends than lines. -/
theorem length_unifyLineEnds_le (hlines : ∀ line ∈ lines, CommandLine.IsLine line.text) :
    (Source.unifyLineEnds (file lines).toList).length ≤ (unified lines).toList.length := by
  induction lines with
  | nil => exact Nat.le_refl _
  | cons line lines ih =>
    obtain ⟨hline, hmore⟩ := List.forall_mem_cons.mp hlines
    have hrest := ih hmore
    rw [toList_unified_cons, List.length_append, List.length_cons]
    by_cases hapart : ∀ next ∈ lines.head?, line.IsApart next
    · rw [unifyLineEnds_cons hline hmore hapart, List.length_append, List.length_cons]
      omega
    · push Not at hapart
      obtain ⟨next, hnext, hapart⟩ := hapart
      obtain ⟨rest, rfl⟩ := List.head?_eq_some_iff.mp hnext
      rw [unifyLineEnds_cons_of_not_isApart hline hapart, List.length_append]
      omega

/-- The ends of lines become carriage returns, one for each line, just in case no two of them are
taken together. -/
theorem normalize_file_iff (hlines : ∀ line ∈ lines, CommandLine.IsLine line.text) :
    Source.normalize (file lines) = unified lines ↔ lines.IsChain IsApart := by
  rw [Source.normalize, ← String.toList_inj, String.toList_ofList]
  induction lines with
  | nil => exact iff_of_true rfl .nil
  | cons line lines ih =>
    obtain ⟨hline, hmore⟩ := List.forall_mem_cons.mp hlines
    rw [List.isChain_cons]
    by_cases hapart : ∀ next ∈ lines.head?, line.IsApart next
    · rw [unifyLineEnds_cons hline hmore hapart, toList_unified_cons, List.append_cancel_left_eq,
        List.cons_inj_right, ih hmore, and_iff_right hapart]
    · refine iff_of_false (fun hsame ↦ ?_) fun h ↦ hapart h.1
      push Not at hapart
      obtain ⟨next, hnext, hapart⟩ := hapart
      obtain ⟨rest, rfl⟩ := List.head?_eq_some_iff.mp hnext
      have hfewer := length_unifyLineEnds_le hmore
      have hlength := congrArg List.length hsame
      rw [unifyLineEnds_cons_of_not_isApart hline hapart, toList_unified_cons, List.length_append,
        List.length_append, List.length_cons] at hlength
      omega

end EndedLine

namespace CommandLine

/-- A file comes in with its ends of lines made alike and in no other way. -/
theorem transcript_congr (limit : Nat) (options : Options) (input : String)
    {source other : String} (h : Source.normalize source = Source.normalize other) :
    transcript limit options (some source) input =
      transcript limit options (some other) input := by
  simp only [transcript, evaluateFile, h]

/-- How the lines of a file end makes no difference. Each end becomes a carriage return, unless
two of them are taken together, and so all files of the same lines have the same output, the
same errors with the same positions and the same exit status, whatever is asked for. -/
theorem transcript_file_lines (limit : Nat) (options : Options) (input : String)
    {lines : List EndedLine} (hlines : ∀ line ∈ lines, IsLine line.text)
    (hapart : lines.IsChain EndedLine.IsApart) :
    Source.normalize (EndedLine.file lines) = EndedLine.unified lines ∧
    ∀ others : List EndedLine, others.map (·.text) = lines.map (·.text) →
      others.IsChain EndedLine.IsApart →
      let seen := transcript limit options (some (EndedLine.file lines)) input
      let again := transcript limit options (some (EndedLine.file others)) input
      again.out = seen.out ∧ again.err = seen.err ∧ status again = status seen := by
  have hunified := (EndedLine.normalize_file_iff hlines).mpr hapart
  refine ⟨hunified, fun others htexts hothers ↦ ?_⟩
  have hmembers : ∀ other ∈ others, IsLine other.text := by
    intro other hother
    have htext := List.mem_map_of_mem (f := (·.text)) hother
    rw [htexts] at htext
    obtain ⟨line, hline, hsame⟩ := List.mem_map.mp htext
    exact hsame ▸ hlines line hline
  have hsame : EndedLine.unified others = EndedLine.unified lines := by
    have hmap (row : List EndedLine) :
        EndedLine.unified row = String.join ((row.map (·.text)).map (· ++ "\r")) := by
      rw [EndedLine.unified, List.map_map]
      rfl
    rw [hmap, hmap, htexts]
  have hagain := (EndedLine.normalize_file_iff hmembers).mpr hothers
  have htranscript := transcript_congr limit options input
    (hagain.trans (hsame.trans hunified.symm))
  exact ⟨congrArg Transcript.out htranscript, congrArg Transcript.err htranscript,
    congrArg status htranscript⟩

/-- A comment, an empty line and a text over two lines, with all three ends and with newlines
only. -/
theorem transcript_file_lines_mixed :
    let lines : List EndedLine := [⟨"1 + // one", .returnNewline⟩, ⟨"2;", .carriageReturn⟩,
      ⟨"", .returnNewline⟩, ⟨"\"a", .newline⟩, ⟨"b\" + x", .carriageReturn⟩]
    let others : List EndedLine := lines.map fun line ↦ ⟨line.text, .newline⟩
    let again := transcript nestingLimit (batch "sums" false true)
      (some (EndedLine.file others)) ""
    ((∀ line ∈ lines, IsLine line.text) ∧ lines.IsChain EndedLine.IsApart ∧
      others.map (·.text) = lines.map (·.text) ∧ others.IsChain EndedLine.IsApart) ∧
    Source.normalize (EndedLine.file lines) = "1 + // one\r2;\r\r\"a\rb\" + x\r" ∧
    again.out = "(1 + 2)\n3\n(\"a\\rb\" + x)\n" ∧
    again.err = "runtime error: 3:6: undefined variable: x\n" ∧
    status again = status (transcript nestingLimit (batch "sums" false true)
      (some (EndedLine.file lines)) "") := by
  intro lines others again
  have hlines : ∀ line ∈ lines, IsLine line.text := by decide +kernel
  have hapart : lines.IsChain EndedLine.IsApart := by decide +kernel
  have hothers : others.IsChain EndedLine.IsApart := by decide +kernel
  obtain ⟨hunified, hall⟩ :=
    transcript_file_lines nestingLimit (batch "sums" false true) "" hlines hapart
  obtain ⟨-, -, hstatus⟩ := hall others (by rfl) hothers
  exact ⟨⟨hlines, hapart, by rfl, hothers⟩, hunified.trans (by decide +kernel),
    by decide +kernel, by decide +kernel, hstatus⟩

end CommandLine

end Reckoner
