import Reckoner.Proofs.Session.Splitting

/-!
Running texts one after the other. A terminator cuts a text into two that are run on their own,
the second one in the session that the first one leaves, whatever stands at the seam: no
terminator reaches over another one. So statements that are joined by terminators are evaluated
once each and in order, and an error in one of them stops none of the others.
-/

set_option autoImplicit false
set_option relaxedAutoImplicit false

namespace Reckoner

open Text

namespace Source

/-- The pieces of two texts with a terminator between them are those of each. -/
theorem pieces_append (first second : List Char) :
    pieces (first ++ ';' :: '\r' :: second) = pieces first ++ pieces second := by
  fun_induction pieces first with
  | case1 => rfl
  | case2 rest ih =>
    rw [List.cons_append, List.cons_append, pieces, ih, List.cons_append]
  | case3 c rest hterminator hnil => exact absurd hnil (pieces_ne_nil rest)
  | case4 c rest hterminator piece more hpieces ih =>
    -- a semicolon at the end of the first text is followed by another one
    have hseam : ∀ tail, c = ';' → rest ++ ';' :: '\r' :: second ≠ '\r' :: tail := by
      rintro tail rfl htail
      cases rest with
      | nil => cases htail
      | cons d rest => exact hterminator rest rfl (by rw [(List.cons.inj htail).1])
    rw [List.cons_append, pieces.eq_3 _ _ hseam, ih, hpieces]
    rfl

theorem statements_append (first second : String) :
    statements (first ++ ";\r" ++ second) = statements first ++ statements second := by
  have htext : (first ++ ";\r" ++ second).toList =
      first.toList ++ ';' :: '\r' :: second.toList := by simp
  simp only [statements, htext, pieces_append, List.filter_append, List.map_append]

/-- A text without terminators is a piece by itself. -/
theorem pieces_eq_singleton {source : List Char} (h : ¬ [';', '\r'] <:+: source) :
    pieces source = [source] := by
  obtain ⟨first, more, hpieces⟩ := List.exists_cons_of_ne_nil (pieces_ne_nil source)
  rcases pieces_eq_cons hpieces with ⟨rfl, rfl⟩ | ⟨rest, hsource, -⟩
  · exact hpieces
  · exact absurd ⟨first, rest, by simp [hsource]⟩ h

/-- Whether the text is a single statement as it stands. -/
def IsStatement (text : String) : Prop :=
  isBlankText text.toList = false ∧ ¬ [';', '\r'] <:+: text.toList

instance : DecidablePred IsStatement :=
  fun text ↦ inferInstanceAs (Decidable (isBlankText text.toList = false ∧
    ¬ [';', '\r'] <:+: text.toList))

theorem IsStatement.statements {text : String} (h : IsStatement text) :
    statements text = [text] := by
  simp [Source.statements, pieces_eq_singleton h.2, h.1]

/-- Statements that are joined by terminators are the statements of the text. -/
theorem statements_intercalate {texts : List String} (h : ∀ text ∈ texts, IsStatement text) :
    statements (";\r".intercalate texts) = texts := by
  induction texts with
  | nil => rfl
  | cons text texts ih =>
    obtain ⟨htext, hmore⟩ := List.forall_mem_cons.mp h
    cases texts with
    | nil => rw [String.intercalate_singleton, htext.statements]
    | cons next texts =>
      rw [String.intercalate_cons_cons, statements_append, htext.statements, ih hmore]
      rfl

end Source

namespace Session

variable {limit : Nat} {session : Session}

theorem runAll_cons (text : String) (texts : List String) :
    session.runAll limit (text :: texts) =
      (⟨text, (session.evaluate limit text).1⟩ ::
          ((session.evaluate limit text).2.runAll limit texts).1,
        ((session.evaluate limit text).2.runAll limit texts).2) := rfl

theorem runAll_append (first second : List String) :
    session.runAll limit (first ++ second) =
      ((session.runAll limit first).1 ++
          ((session.runAll limit first).2.runAll limit second).1,
        ((session.runAll limit first).2.runAll limit second).2) := by
  induction first generalizing session with
  | nil => rfl
  | cons text first ih => rw [List.cons_append, runAll_cons, ih, runAll_cons, List.cons_append]

/-- The session that a row of statements leaves. -/
def evaluateAll (limit : Nat) (session : Session) (statements : List String) : Session :=
  statements.foldl (fun session text ↦ (session.evaluate limit text).2) session

@[simp] theorem evaluateAll_nil : session.evaluateAll limit [] = session := rfl

@[simp] theorem evaluateAll_cons (text : String) (texts : List String) :
    session.evaluateAll limit (text :: texts) =
      (session.evaluate limit text).2.evaluateAll limit texts := rfl

/-- Every statement of a row is evaluated once, in the session that those before it leave. -/
theorem runAll_eq (statements : List String) : session.runAll limit statements =
    (statements.mapIdx fun i text ↦
        ⟨text, ((session.evaluateAll limit (statements.take i)).evaluate limit text).1⟩,
      session.evaluateAll limit statements) := by
  induction statements generalizing session with
  | nil => rfl
  | cons text rest ih => simp [runAll_cons, ih, List.mapIdx_cons]

theorem run_append (first second : String) :
    session.run limit (first ++ ";\r" ++ second) =
      ((session.run limit first).1 ++ ((session.run limit first).2.run limit second).1,
        ((session.run limit first).2.run limit second).2) := by
  rw [run, Source.statements_append, runAll_append]
  rfl

/-- Running is compositional. Two texts with a terminator between them are run as the first one
and then, in the session that it leaves, the second one: the outcomes, the lines to show and the
session at the end are those of both runs. Statements joined by terminators are evaluated once
each, every one in the session that those before it leave. -/
theorem run_joined (limit : Nat) (session : Session) :
    (∀ first second : String,
      let before := session.run limit first
      let behind := before.2.run limit second
      session.run limit (first ++ ";\r" ++ second) = (before.1 ++ behind.1, behind.2)) ∧
    (∀ first second : String,
      let before := session.interpret limit first
      let behind := before.2.interpret limit second
      session.interpret limit (first ++ ";\r" ++ second) = (before.1 ++ behind.1, behind.2)) ∧
    ∀ texts : List String, (∀ text ∈ texts, Source.IsStatement text) →
      session.run limit (";\r".intercalate texts) =
        (texts.mapIdx fun i text ↦
            ⟨text, ((session.evaluateAll limit (texts.take i)).evaluate limit text).1⟩,
          session.evaluateAll limit texts) := by
  refine ⟨run_append, fun first second ↦ ?_, fun texts htexts ↦ ?_⟩
  · simp only [interpret, run_append, List.map_append, List.filter_append]
  · rw [run, Source.statements_intercalate htexts, runAll_eq]

/-- Three statements of which the first cannot be read and the second has no value. -/
theorem run_joined_failing :
    let texts := ["const a = 1 +", "a;", "2"]
    (∀ text ∈ texts, Source.IsStatement text) ∧
      (Session.standard.run nestingLimit "const a = 1 +;\ra;;\r2").1.map Outcome.isOk =
        [false, false, true] ∧
      Session.standard.run nestingLimit (";\r".intercalate texts) =
        (texts.mapIdx fun i text ↦
            ⟨text, ((Session.standard.evaluateAll nestingLimit (texts.take i)).evaluate
              nestingLimit text).1⟩,
          Session.standard.evaluateAll nestingLimit texts) := by
  have htexts : ∀ text ∈ ["const a = 1 +", "a;", "2"], Source.IsStatement text := by
    decide +kernel
  exact ⟨htexts, by decide +kernel, (run_joined nestingLimit Session.standard).2.2 _ htexts⟩

end Session

end Reckoner
