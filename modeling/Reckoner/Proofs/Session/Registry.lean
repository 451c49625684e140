import Mathlib.Logic.Relation
import Reckoner.Proofs.Declarations.Invariant
import Reckoner.Proofs.Grammar.Readable
import Reckoner.Proofs.Session.Declaring
import Reckoner.Proofs.Token.WellWritten

/-!
The registry over whole runs. Every expression that a session keeps is readable where the
functions of that session may be called, and no function has the name of a built-in one.
Reading a statement preserves that, because its declarations are made together: a call of a
function inside its own body is resolved by the time it is kept.
-/

set_option autoImplicit false
set_option relaxedAutoImplicit false

namespace Reckoner

namespace Session

/-- The tokens of an expression that is read from a text are well written. -/
theorem comparing_of_tokenize {limit : Nat} {text : String} {tokens : List Token}
    (htokens : Reckoner.tokenize limit text = .ok tokens) {declarations : Declarations}
    {tree : StatementTree} (hderives : tree.Derives declarations tokens) :
    ParseTree.Comparing tree.expr.tokens :=
  fun token htoken ↦ (wellWritten_tokenize htokens token (hderives.subset htoken)).comparison

variable {limit : Nat} {session : Session} {text : String} {tokens : List Token}
  {statement : Statement}

/-- A statement takes nothing away and defines no function again. -/
theorem keptBy_declaring (h : Reads limit session text tokens statement) :
    session.declarations.KeptBy (session.declaring statement).declarations := by
  obtain ⟨tree, hderives, -, rfl⟩ := Statement.derivedFrom_of_ofTokens h.2
  have hupdated := session.declarations.updatedBy_declareAll
    (tree.expr.declared session.declarations.builtins)
  refine ⟨hupdated.builtins, fun name definition hfind ↦ hupdated.function_kept hfind ?_,
    fun name ↦ hupdated.contains_constants⟩
  intro declaration hmem
  have hcontains : session.declarations.functions.contains name = true := by
    rw [NameMap.contains, hfind]
    rfl
  -- a tree in order declares no name that is in force already
  by_contra hdeclares
  have hfree := tree.expr.isFunction_of_declared hderives.valid declaration hmem name
    (Bool.of_not_eq_false hdeclares)
  rw [Declarations.isFunction, hcontains, Bool.or_true] at hfree
  cases hfree

/-- What a statement stands for may be kept once its declarations are in force, and so may
what they declare. -/
theorem keeps_declaring (h : Reads limit session text tokens statement) :
    (session.declaring statement).declarations.Keeps statement.expr ∧
      ∀ declaration ∈ statement.declared,
        (session.declaring statement).declarations.Keeps declaration.expr := by
  obtain ⟨tree, hderives, -, hstatement⟩ := Statement.derivedFrom_of_ofTokens h.2
  have hupdated := session.declarations.updatedBy_declareAll
    (tree.expr.declared session.declarations.builtins)
  have hadmits : ParseTree.Admits ⟨session.declarations, none⟩
      (tree.expr.declared session.declarations.builtins) fun name ↦
        (session.declaring statement).declarations.functions.contains name = true := by
    rw [← hstatement]
    refine ⟨fun name hname ↦ hupdated.contains_functions (.inl hname), nofun, ?_⟩
    intro declaration hmem name hname
    exact hupdated.contains_functions (.inr ⟨declaration, hmem, hname⟩)
  have hreadable := tree.expr.readable hderives.valid (comparing_of_tokenize h.1 hderives) hadmits
  unfold Declarations.Keeps
  rw [(keptBy_declaring h).builtins]
  subst hstatement
  exact hreadable

/-- Reading a statement preserves the soundness of the declarations. -/
theorem sound_declaring (hsound : session.declarations.Sound)
    (h : Reads limit session text tokens statement) :
    (session.declaring statement).declarations.Sound := by
  have hkept := keptBy_declaring h
  have hdeclared := (keeps_declaring h).2
  have hupdated := session.declarations.updatedBy_declareAll statement.declared
  refine ⟨fun name definition hfind ↦ ?_, fun name value hfind ↦ ?_, fun name hname ↦ ?_⟩
  · rcases hupdated.function_cases hfind with ⟨hmem, -⟩ | hbefore
    · exact hdeclared _ hmem
    · exact (hsound.functions name definition hbefore).mono hkept
  · rcases hupdated.constant_cases hfind with hmem | hbefore
    · exact hdeclared _ hmem
    · exact (hsound.constants name value hbefore).mono hkept
  · obtain ⟨definition, hfind⟩ := Option.isSome_iff_exists.mp hname
    rw [hkept.builtins]
    rcases hupdated.function_cases hfind with ⟨hmem, hdefinition⟩ | hbefore
    · obtain ⟨tree, hderives, -, rfl⟩ := Statement.derivedFrom_of_ofTokens h.2
      have hfree := tree.expr.isFunction_of_declared hderives.valid _ hmem name
        (decide_eq_true hdefinition)
      rw [Declarations.isFunction, Bool.or_eq_false_iff] at hfree
      exact hfree.1
    · exact hsound.unshadowed name (Option.isSome_iff_exists.mpr ⟨definition, hbefore⟩)

/-- What can be asked of a session. -/
inductive Call where
  | evaluate (limit : Nat) (text : String)
  | parse (limit : Nat) (text : String)
  | run (limit : Nat) (source : String)

/-- The session after a call. -/
def call (session : Session) : Call → Session
  | .evaluate limit text => (session.evaluate limit text).2
  | .parse limit text => (session.parse limit text).2
  | .run limit source => (session.run limit source).2

/-- The session after a row of calls. -/
def callAll (session : Session) (calls : List Call) : Session :=
  calls.foldl call session

/-- A session goes over into another by reading a statement. -/
def Step (before after : Session) : Prop :=
  ∃ limit text tokens statement, Reads limit before text tokens statement ∧
    after = before.declaring statement

/-- A session goes over into another by reading statements. -/
abbrev Steps : Session → Session → Prop :=
  Relation.ReflTransGen Step

theorem steps_parse (limit : Nat) (session : Session) (text : String) :
    session.Steps (session.parse limit text).2 := by
  rcases parse_cases limit session text with ⟨_, -, h⟩ | ⟨tokens, statement, hreads, h⟩
  · rw [h]
  · rw [h]
    exact .single ⟨limit, text, tokens, statement, hreads, rfl⟩

theorem steps_evaluate (limit : Nat) (session : Session) (text : String) :
    session.Steps (session.evaluate limit text).2 := by
  rw [evaluate_snd]
  exact steps_parse limit session text

theorem steps_runAll (limit : Nat) (session : Session) (statements : List String) :
    session.Steps (session.runAll limit statements).2 := by
  induction statements generalizing session with
  | nil => exact .refl
  | cons statement statements ih => exact (steps_evaluate limit session statement).trans (ih _)

theorem steps_call (session : Session) (call : Call) : session.Steps (session.call call) := by
  cases call with
  | evaluate limit text => exact steps_evaluate limit session text
  | parse limit text => exact steps_parse limit session text
  | run limit source => exact steps_runAll limit session _

theorem steps_callAll (session : Session) (calls : List Call) :
    session.Steps (session.callAll calls) := by
  induction calls generalizing session with
  | nil => exact .refl
  | cons call calls ih => exact (steps_call session call).trans (ih _)

theorem Steps.keptBy {before after : Session} (h : before.Steps after) :
    before.declarations.KeptBy after.declarations := by
  induction h with
  | refl => exact .refl _
  | tail _ hstep ih =>
    obtain ⟨limit, text, tokens, statement, hreads, rfl⟩ := hstep
    exact ih.trans (keptBy_declaring hreads)

theorem Steps.sound {before after : Session} (h : before.Steps after)
    (hsound : before.declarations.Sound) : after.declarations.Sound := by
  induction h with
  | refl => exact hsound
  | tail _ hstep ih =>
    obtain ⟨limit, text, tokens, statement, hreads, rfl⟩ := hstep
    exact sound_declaring ih hreads

/-- The declarations of every session that is reached from a new one are sound. -/
theorem sound_callAll (builtins : NameMap Builtin) (constants : List (String × Float))
    (calls : List Call) : ((start builtins constants).callAll calls).declarations.Sound :=
  (steps_callAll _ calls).sound (Declarations.sound_initial builtins constants)

/-- In every session that is reached from a new one, all calls that it keeps resolve in it,
and so do those in any expression that is read next, in the session as it is then. Whatever
is called next keeps all functions as they are, and all constants. -/
theorem closed_callAll (builtins : NameMap Builtin) (constants : List (String × Float))
    (calls : List Call) :
    let session := (start builtins constants).callAll calls
    session.declarations.Closed ∧
      (∀ limit text expr after, session.parse limit text = (.ok expr, after) →
        after.declarations.Resolves expr) ∧
      ∀ call, session.declarations.KeptBy (session.call call).declarations := by
  intro session
  refine ⟨(sound_callAll builtins constants calls).closed, ?_, fun call ↦ ?_⟩
  · intro limit text expr after hparse
    rcases parse_cases limit session text with ⟨_, -, h⟩ | ⟨tokens, statement, hreads, h⟩
    · rw [h] at hparse
      cases hparse
    · rw [h] at hparse
      cases hparse
      exact (keeps_declaring hreads).1.resolves
  · exact (steps_call session call).keptBy

end Session

end Reckoner
