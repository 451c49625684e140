import Mathlib.Data.List.Induction
import Reckoner.Proofs.Session.Registry

/-!
Where what is in force comes from. Whatever is called, a session goes through texts that are read
one after the other, and what it holds at the end was declared by one of these or was there before
the first of them.
-/

set_option autoImplicit false
set_option relaxedAutoImplicit false

namespace Reckoner

/-- Whether it is this declaration that is in force. -/
def Declarations.Holds (declarations : Declarations) : Declaration → Prop
  | .function definition => declarations.functions.find? definition.name = some definition
  | .constant name value => declarations.constants.find? name = some value

namespace Session

/-- The session that is left when texts have been read, each under a limit of its own. -/
def readAll (session : Session) (texts : List (Nat × String)) : Session :=
  texts.foldl (fun session entry ↦ (session.parse entry.1 entry.2).2) session

/-- The texts that a call reads. -/
def Call.texts : Call → List (Nat × String)
  | .evaluate limit text => [(limit, text)]
  | .parse limit text => [(limit, text)]
  | .run limit source => (Source.statements source).map (limit, ·)

theorem runAll_snd (limit : Nat) (session : Session) (statements : List String) :
    (session.runAll limit statements).2 = session.readAll (statements.map (limit, ·)) := by
  induction statements generalizing session with
  | nil => rfl
  | cons statement statements ih =>
    exact (ih _).trans (congrArg (readAll · (statements.map (limit, ·)))
      (evaluate_snd limit session statement))

theorem call_eq_readAll (session : Session) (call : Call) :
    session.call call = session.readAll call.texts := by
  cases call with
  | evaluate limit text => exact evaluate_snd limit session text
  | parse limit text => rfl
  | run limit source => exact runAll_snd limit session _

theorem callAll_eq_readAll (session : Session) (calls : List Call) :
    session.callAll calls = session.readAll (calls.flatMap Call.texts) := by
  induction calls generalizing session with
  | nil => rfl
  | cons call calls ih =>
    rw [List.flatMap_cons, readAll, List.foldl_append]
    refine (ih (session.call call)).trans ?_
    rw [call_eq_readAll]
    rfl

theorem readAll_concat (session : Session) (texts : List (Nat × String)) (limit : Nat)
    (text : String) : session.readAll (texts ++ [(limit, text)]) =
      ((session.readAll texts).parse limit text).2 := by
  rw [readAll, List.foldl_append]
  rfl

/-- One of the texts, in the session that those before it leave, is read from the tokens as a
statement with the declaration. -/
def Declares (first : Session) (texts : List (Nat × String)) (tokens : List Token)
    (declaration : Declaration) : Prop :=
  ∃ before limit text behind statement, texts = before ++ (limit, text) :: behind ∧
    Reads limit (first.readAll before) text tokens statement ∧
      declaration ∈ statement.declared

variable {first : Session} {texts : List (Nat × String)} {tokens : List Token}
  {declaration : Declaration} {limit : Nat} {text : String}

theorem Declares.concat (h : first.Declares texts tokens declaration) (limit : Nat)
    (text : String) : first.Declares (texts ++ [(limit, text)]) tokens declaration := by
  obtain ⟨before, limit', text', behind, statement, rfl, hreads, hdeclared⟩ := h
  refine ⟨before, limit', text', behind ++ [(limit, text)], statement, ?_, hreads, hdeclared⟩
  rw [List.append_assoc, List.cons_append]

/-- What is declared up to the last text is declared by that or before it. -/
theorem Declares.concat_cases (h : first.Declares (texts ++ [(limit, text)]) tokens declaration) :
    first.Declares texts tokens declaration ∨
      ∃ statement, Reads limit (first.readAll texts) text tokens statement ∧
        declaration ∈ statement.declared := by
  obtain ⟨before, limit', text', behind, statement, htexts, hreads, hdeclared⟩ := h
  rcases List.eq_nil_or_concat behind with rfl | ⟨middle, last, rfl⟩
  · obtain ⟨rfl, hlast⟩ := List.append_inj' htexts rfl
    cases hlast
    exact .inr ⟨statement, hreads, hdeclared⟩
  · rw [List.concat_eq_append, ← List.cons_append, ← List.append_assoc] at htexts
    obtain ⟨rfl, -⟩ := List.append_inj' htexts rfl
    exact .inl ⟨before, limit', text', middle, statement, rfl, hreads, hdeclared⟩

/-- Where the declarations that a session holds come from: each of them from one of the texts, or
from the session before all of them. -/
structure Recorded (first : Session) (texts : List (Nat × String)) (session : Session) : Prop where
  functions : ∀ name definition,
    session.declarations.functions.find? name = some definition →
      (definition.name = name ∧ ∃ tokens, first.Declares texts tokens (.function definition)) ∨
        first.declarations.functions.find? name = some definition
  constants : ∀ name value, session.declarations.constants.find? name = some value →
    (∃ tokens, first.Declares texts tokens (.constant name value)) ∨
      first.declarations.constants.find? name = some value

/-- One more text: what it declares is recorded, and all else has been. -/
theorem Recorded.step (h : Recorded first texts (first.readAll texts)) (limit : Nat)
    (text : String) : Recorded first (texts ++ [(limit, text)])
      ((first.readAll texts).parse limit text).2 := by
  have hkept : Recorded first (texts ++ [(limit, text)]) (first.readAll texts) := by
    refine ⟨fun name definition hfind ↦ ?_, fun name value hfind ↦ ?_⟩
    · refine (h.functions name definition hfind).imp_left ?_
      exact fun ⟨hname, tokens, hdeclares⟩ ↦ ⟨hname, tokens, hdeclares.concat limit text⟩
    · refine (h.constants name value hfind).imp_left ?_
      exact fun ⟨tokens, hdeclares⟩ ↦ ⟨tokens, hdeclares.concat limit text⟩
  rcases parse_cases limit (first.readAll texts) text with
    ⟨_, -, hfails⟩ | ⟨tokens, statement, hreads, hparse⟩
  · rw [hfails]
    exact hkept
  · rw [hparse]
    have hupdated := (first.readAll texts).declarations.updatedBy_declareAll statement.declared
    have hdeclares {declaration : Declaration} (hmem : declaration ∈ statement.declared) :
        first.Declares (texts ++ [(limit, text)]) tokens declaration :=
      ⟨texts, limit, text, [], statement, rfl, hreads, hmem⟩
    refine ⟨fun name definition hfind ↦ ?_, fun name value hfind ↦ ?_⟩
    · rcases hupdated.function_cases hfind with ⟨hmem, hname⟩ | hbefore
      · exact .inl ⟨hname, tokens, hdeclares hmem⟩
      · exact hkept.functions name definition hbefore
    · rcases hupdated.constant_cases hfind with hmem | hbefore
      · exact .inl ⟨tokens, hdeclares hmem⟩
      · exact hkept.constants name value hbefore

/-- All texts: whatever is in force behind them is recorded. -/
theorem recorded_readAll (first : Session) (texts : List (Nat × String)) :
    Recorded first texts (first.readAll texts) := by
  induction texts using List.reverseRecOn with
  | nil => exact ⟨fun _ _ ↦ .inr, fun _ _ ↦ .inr⟩
  | append_singleton texts entry ih =>
    rw [readAll_concat]
    exact ih.step entry.1 entry.2

end Session

end Reckoner
